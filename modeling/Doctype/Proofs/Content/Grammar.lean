import Doctype.Content.Spec

/-!
The grammar of content models, apart from any way of reading it. `Lexes` says how a text is cut
into tokens, `Grammar.Group` and `Grammar.Mixed` which tokens write a group and mixed content,
and `Grammar.Accepts` puts the parts together. A tree of element content has one canonical list
of tokens (`Particle.lexemes`), and the groups of the grammar are exactly the trees that
`Particle.IsElementModel` describes, each with that list (`Grammar.group_iff`).
-/

namespace Doctype.Content

/-! ### Cutting a text into tokens -/

/-- Whether a lexeme can come out of a text: a name must be one. -/
def Lexeme.Valid : Lexeme → Prop
  | name n => Text.isName n = true
  | _ => True

/-- Whether a lexeme ends in front of `t`: a name and a keyword go on as long as they can. -/
def Lexeme.EndsBefore (t : Text) : Lexeme → Prop
  | name _ => Text.startsNameChar t = false
  | pcdata => Text.startsNameChar t = false
  | _ => True

/-- `Lexes t ls`: the text `t` consists of the lexemes `ls`, each as long as it can be, with
blanks anywhere between them. -/
inductive Lexes : Text → List Lexeme → Prop
  | nil : Lexes [] []
  | blank {c : Char} {t : Text} {ls : List Lexeme} :
      isBlank c = true → Lexes t ls → Lexes (c :: t) ls
  | lexeme {l : Lexeme} {t : Text} {ls : List Lexeme} :
      l.Valid → l.EndsBefore t → Lexes t ls → Lexes (l.print ++ t) (l :: ls)

/-! ### The productions -/

def markLexemes : Option Mark → List Lexeme
  | some m => [.mark m]
  | none => []

def GroupKind.lexeme : GroupKind → Lexeme
  | sequence => .comma
  | choice => .bar

namespace Grammar

mutual

/-- `Group ::= '(' Cp (',' Cp)* ')' Occ? | '(' Cp ('|' Cp)+ ')' Occ?` -/
inductive Group : List Lexeme → Particle → Prop
  | sequence {ls more : List Lexeme} {p : Particle} {ps : List Particle} (mark : Option Mark) :
      Cp ls p → Tail .sequence more ps →
        Group (.leftParen :: (ls ++ more ++ .rightParen :: markLexemes mark))
          (.group .sequence (p :: ps) mark)
  | choice {ls more : List Lexeme} {p q : Particle} {ps : List Particle} (mark : Option Mark) :
      Cp ls p → Tail .choice more (q :: ps) →
        Group (.leftParen :: (ls ++ more ++ .rightParen :: markLexemes mark))
          (.group .choice (p :: q :: ps) mark)

/-- `Cp ::= Name Occ? | Group` -/
inductive Cp : List Lexeme → Particle → Prop
  | name (n : Text) (mark : Option Mark) : Cp (.name n :: markLexemes mark) (.name n mark)
  | group {ls : List Lexeme} {p : Particle} : Group ls p → Cp ls p

/-- Any number of particles, each behind the separator of the group that they are in. -/
inductive Tail : GroupKind → List Lexeme → List Particle → Prop
  | nil {kind : GroupKind} : Tail kind [] []
  | cons {kind : GroupKind} {ls more : List Lexeme} {p : Particle} {ps : List Particle} :
      Cp ls p → Tail kind more ps → Tail kind (kind.lexeme :: (ls ++ more)) (p :: ps)

end

/-- The tree of mixed content that admits the elements `ns`. -/
def mixedModel (ns : List Text) (mark : Option Mark) : Particle :=
  .group .choice (.pcdata :: ns.map (.name · none)) mark

def barredNames (ns : List Text) : List Lexeme :=
  ns.flatMap fun n => [.bar, .name n]

/-- `Mixed ::= '(' #PCDATA ')' '*'? | '(' #PCDATA ('|' Name)+ ')' '*'` -/
inductive Mixed : List Lexeme → Particle → Prop
  | plain : Mixed [.leftParen, .pcdata, .rightParen] (mixedModel [] none)
  | starred : Mixed [.leftParen, .pcdata, .rightParen, .mark .zeroOrMore]
      (mixedModel [] (some .zeroOrMore))
  | names {n : Text} {ns : List Text} :
      Mixed (.leftParen :: .pcdata ::
        (barredNames (n :: ns) ++ [.rightParen, .mark .zeroOrMore]))
        (mixedModel (n :: ns) (some .zeroOrMore))

end Grammar

/-! ### Shape of a tree -/

namespace Particle

def IsGroup : Particle → Prop
  | group _ _ _ => True
  | _ => False

mutual

/-- How deep groups are nested; a group of names counts one. -/
def nesting : Particle → Nat
  | name _ _ => 0
  | pcdata => 0
  | group _ members _ => nestingAll members + 1

def nestingAll : List Particle → Nat
  | [] => 0
  | p :: ps => max (nesting p) (nestingAll ps)

end

/-- A particle of element content: no group is empty, a choice has two members at least, and
`#PCDATA` stands nowhere. -/
inductive IsElementModel : Particle → Prop
  | name {n : Text} {mark : Option Mark} : IsElementModel (.name n mark)
  | group {kind : GroupKind} {members : List Particle} {mark : Option Mark} :
      members ≠ [] → (kind = .choice → 2 ≤ members.length) →
        (∀ p ∈ members, IsElementModel p) → IsElementModel (.group kind members mark)

/-- `Mentions n p`: the name `n` stands somewhere in the particle `p`. -/
inductive Mentions (n : Text) : Particle → Prop
  | name {mark : Option Mark} : Mentions n (.name n mark)
  | member {kind : GroupKind} {members : List Particle} {mark : Option Mark} {p : Particle} :
      p ∈ members → Mentions n p → Mentions n (.group kind members mark)

mutual

def lexemes : Particle → List Lexeme
  | name n mark => .name n :: markLexemes mark
  | pcdata => [.pcdata]
  | group kind members mark =>
    .leftParen :: (memberLexemes kind members ++ .rightParen :: markLexemes mark)

def memberLexemes (kind : GroupKind) : List Particle → List Lexeme
  | [] => []
  | p :: ps => lexemes p ++ tailLexemes kind ps

def tailLexemes (kind : GroupKind) : List Particle → List Lexeme
  | [] => []
  | p :: ps => kind.lexeme :: (lexemes p ++ tailLexemes kind ps)

end

theorem nestingAll_le_iff {d : Nat} {ps : List Particle} :
    nestingAll ps ≤ d ↔ ∀ p ∈ ps, nesting p ≤ d := by
  induction ps with
  | nil => simp [nestingAll]
  | cons p ps ih => simp only [nestingAll, Nat.max_le, ih, List.forall_mem_cons]

theorem tailLexemes_eq (kind : GroupKind) {ps : List Particle} (hps : ps ≠ []) :
    tailLexemes kind ps = kind.lexeme :: memberLexemes kind ps := by
  cases ps with
  | nil => exact absurd rfl hps
  | cons p ps => rfl

mutual

/-- A name is among the lexemes of a particle exactly when the particle mentions it. -/
theorem name_mem_lexemes_iff {n : Text} (p : Particle) :
    .name n ∈ p.lexemes ↔ Mentions n p := by
  cases p with
  | name m mark =>
      constructor
      · intro h
        have hm : m = n := by
          cases mark <;> simpa [lexemes, markLexemes, eq_comm] using h
        exact hm ▸ .name
      · rintro ⟨⟩
        simp [lexemes]
  | pcdata =>
      constructor
      · intro h
        simp [lexemes] at h
      · rintro ⟨⟩
  | group kind members mark =>
      have hmark : ¬ .name n ∈ markLexemes mark := by cases mark <;> simp [markLexemes]
      have hmembers : .name n ∈ memberLexemes kind members ↔ ∃ p ∈ members, Mentions n p := by
        cases members with
        | nil => simp [memberLexemes]
        | cons p ps =>
            simp [memberLexemes, name_mem_lexemes_iff p, name_mem_tailLexemes_iff kind ps]
      constructor
      · intro h
        obtain ⟨p, hp, hn⟩ := hmembers.1 (by simpa [lexemes, hmark] using h)
        exact .member hp hn
      · rintro (_ | ⟨hp, hn⟩)
        simp only [lexemes, List.mem_cons, List.mem_append]
        exact .inr (.inl (hmembers.2 ⟨_, hp, hn⟩))

theorem name_mem_tailLexemes_iff {n : Text} (kind : GroupKind) (ps : List Particle) :
    .name n ∈ tailLexemes kind ps ↔ ∃ p ∈ ps, Mentions n p := by
  cases ps with
  | nil => simp [tailLexemes]
  | cons p ps =>
      have hsep : Lexeme.name n ≠ kind.lexeme := by cases kind <;> simp [GroupKind.lexeme]
      simp [tailLexemes, hsep, name_mem_lexemes_iff p, name_mem_tailLexemes_iff kind ps]

end

theorem mentions_group_iff {n : Text} {kind : GroupKind} {members : List Particle}
    {mark : Option Mark} :
    Mentions n (.group kind members mark) ↔ ∃ p ∈ members, Mentions n p :=
  ⟨fun h => by cases h with | member hp hn => exact ⟨_, hp, hn⟩, fun ⟨_, hp, hn⟩ =>
    .member hp hn⟩

theorem mem_namesIn_iff {n : Text} (ps : List Particle) :
    n ∈ namesIn ps ↔ ∃ p ∈ ps, Mentions n p := by
  fun_induction namesIn ps with
  | case1 => simp
  | case2 m mark pending ih =>
      have hname : Mentions n (.name m mark) ↔ n = m :=
        ⟨by rintro ⟨⟩; rfl, by rintro rfl; exact .name⟩
      simp [ih, hname]
  | case3 pending ih =>
      have hpcdata : ¬ Mentions n .pcdata := by rintro ⟨⟩
      simp [ih, hpcdata]
  | case4 kind members mark pending ih =>
      simp [ih, mentions_group_iff, or_and_right, exists_or]

theorem mem_elementNames_iff {n : Text} {p : Particle} :
    n ∈ p.elementNames ↔ Mentions n p := by
  simp [elementNames, mem_namesIn_iff]

end Particle

def Spec.Mentions (n : Text) (s : Spec) : Prop :=
  ∃ p, s.model? = some p ∧ p.Mentions n

theorem Spec.mem_elementNames_iff {n : Text} {s : Spec} :
    n ∈ s.elementNames ↔ s.Mentions n := by
  unfold Spec.Mentions elementNames
  cases s.model? with
  | none => simp
  | some p => simp [Particle.mem_elementNames_iff]

namespace Grammar

open Particle

mutual

theorem Group.canonical : ∀ {ls : List Lexeme} {p : Particle}, Group ls p →
    p.IsGroup ∧ p.IsElementModel ∧ ls = p.lexemes
  | _, _, .sequence mark hp hps => by
      obtain ⟨hm, rfl⟩ := hp.canonical
      obtain ⟨hms, rfl⟩ := hps.canonical
      refine ⟨trivial, .group (by simp) (by simp) (by simpa using ⟨hm, hms⟩), ?_⟩
      simp [lexemes, memberLexemes]
  | _, _, .choice mark hp hps => by
      obtain ⟨hm, rfl⟩ := hp.canonical
      obtain ⟨hms, rfl⟩ := hps.canonical
      refine ⟨trivial, .group (by simp) (by simp) ?_, ?_⟩
      · simpa using ⟨hm, by simpa using hms⟩
      · simp [lexemes, memberLexemes]

theorem Cp.canonical : ∀ {ls : List Lexeme} {p : Particle}, Cp ls p →
    p.IsElementModel ∧ ls = p.lexemes
  | _, _, .name _ _ => ⟨.name, rfl⟩
  | _, _, .group hg => hg.canonical.2

theorem Tail.canonical : ∀ {kind : GroupKind} {ls : List Lexeme} {ps : List Particle},
    Tail kind ls ps → (∀ p ∈ ps, p.IsElementModel) ∧ ls = tailLexemes kind ps
  | _, _, _, .nil => ⟨by simp, rfl⟩
  | _, _, _, .cons hp hps => by
      obtain ⟨hm, rfl⟩ := hp.canonical
      obtain ⟨hms, rfl⟩ := hps.canonical
      exact ⟨by simpa using ⟨hm, hms⟩, rfl⟩

end

theorem tail_tailLexemes {kind : GroupKind} {ps : List Particle}
    (h : ∀ p ∈ ps, Cp p.lexemes p) : Tail kind (tailLexemes kind ps) ps := by
  induction ps with
  | nil => exact .nil
  | cons p ps ih => exact .cons (h p (by simp)) (ih fun q hq => h q (by simp [hq]))

/-- The canonical form of a particle of element content follows the grammar. -/
theorem cp_lexemes {p : Particle} (h : p.IsElementModel) : Cp p.lexemes p := by
  induction h with
  | name => exact .name _ _
  | @group kind members mark hne htwo hms ih =>
      have hcps : ∀ q ∈ members, Cp q.lexemes q := ih
      obtain ⟨p, ps, rfl⟩ := List.exists_cons_of_ne_nil hne
      have hp : Cp p.lexemes p := hcps p (by simp)
      have hps : Tail kind (tailLexemes kind ps) ps :=
        tail_tailLexemes fun q hq => hcps q (by simp [hq])
      cases kind with
      | sequence =>
          exact .group (by simpa [lexemes, memberLexemes] using Group.sequence mark hp hps)
      | choice =>
          have hlen := htwo rfl
          obtain ⟨q, qs, rfl⟩ : ∃ q qs, ps = q :: qs :=
            List.exists_cons_of_ne_nil (by rintro rfl; simp at hlen)
          exact .group (by simpa [lexemes, memberLexemes] using Group.choice mark hp hps)

/-- The groups of the grammar are the trees of element content, each with its canonical
lexemes. -/
theorem group_iff {ls : List Lexeme} {p : Particle} :
    Group ls p ↔ p.IsGroup ∧ p.IsElementModel ∧ ls = p.lexemes := by
  constructor
  · exact Group.canonical
  · rintro ⟨hg, hm, hls⟩
    have hcp : Cp ls p := hls ▸ cp_lexemes hm
    cases hcp with
    | name n mark => exact hg.elim
    | group h => exact h

theorem Mixed.canonical {ls : List Lexeme} {p : Particle} (h : Mixed ls p) :
    ls = p.lexemes := by
  have htail (ns : List Text) :
      tailLexemes .choice (ns.map (.name · none)) = barredNames ns := by
    induction ns with
    | nil => rfl
    | cons n ns ih =>
        simp [tailLexemes, lexemes, markLexemes, barredNames, ih, GroupKind.lexeme]
  cases h with
  | plain => rfl
  | starred => rfl
  | names =>
      simp only [mixedModel, lexemes, memberLexemes, htail, markLexemes]
      rfl

/-! ### Content specifications -/

/-- The lexemes of a specification with a tree: mixed content, or a group nested at most
`bound` deep. -/
inductive Model (bound : Nat) : List Lexeme → Spec → Prop
  | mixed {ls : List Lexeme} {p : Particle} : Mixed ls p → Model bound ls (.mixed p)
  | children {ls : List Lexeme} {p : Particle} :
      Group ls p → p.nesting ≤ bound → Model bound ls (.children p)

/-- The texts that write a specification: one of two keywords between blanks, or lexemes of a
model. -/
inductive Accepts (bound : Nat) (raw : Text) : Spec → Prop
  | empty : Text.trimBy isBlank raw = "EMPTY".toList → Accepts bound raw .empty
  | any : Text.trimBy isBlank raw = "ANY".toList → Accepts bound raw .any
  | model {ls : List Lexeme} {spec : Spec} :
      Lexes raw ls → Model bound ls spec → Accepts bound raw spec

end Grammar
end Doctype.Content
