import Doctype.Proofs.Content.Lexing

/-!
What the reader of groups takes from a list of tokens. Towards the grammar, every run keeps an
account of the lexemes behind it: those of the groups that are still open (`written`) and of
the member just read are what the finished group begins with (`readMember_sound`,
`readSeparator_sound`). From the grammar, the canonical lexemes of a particle lead the reader
past exactly that particle, whatever groups are open (`leadsPast_of_isElementModel`).
-/

namespace Doctype.Content

open Particle

def lexemesOf (toks : List Token) : List Lexeme :=
  toks.map Token.lexeme

@[simp] theorem lexemesOf_nil : lexemesOf [] = [] := rfl

@[simp] theorem lexemesOf_cons (tok : Token) (toks : List Token) :
    lexemesOf (tok :: toks) = tok.lexeme :: lexemesOf toks := rfl

theorem lexemesOf_eq_cons {toks : List Token} {l : Lexeme} {ls : List Lexeme}
    (h : lexemesOf toks = l :: ls) :
    ∃ o rest, toks = ⟨o, l⟩ :: rest ∧ lexemesOf rest = ls := by
  obtain ⟨⟨o, l'⟩, rest, rfl, rfl, rfl⟩ := List.map_eq_cons_iff.1 h
  exact ⟨o, rest, rfl, rfl⟩

theorem lexemesOf_eq_append {toks : List Token} {ls ls' : List Lexeme}
    (h : lexemesOf toks = ls ++ ls') :
    ∃ ts ts', toks = ts ++ ts' ∧ lexemesOf ts = ls ∧ lexemesOf ts' = ls' := by
  obtain ⟨ts, ts', rfl, hts, hts'⟩ := List.map_eq_append_iff.1 h
  exact ⟨ts, ts', rfl, hts, hts'⟩

theorem lexemesOf_eq_marked {toks : List Token} {l : Lexeme} {mark : Option Mark}
    (h : lexemesOf toks = l :: markLexemes mark) :
    (∃ o o' m, mark = some m ∧ toks = [⟨o, l⟩, ⟨o', .mark m⟩]) ∨
      (∃ o, mark = none ∧ toks = [⟨o, l⟩]) := by
  obtain ⟨o, rest, rfl, hrest⟩ := lexemesOf_eq_cons h
  cases mark with
  | none =>
      obtain rfl : rest = [] := List.map_eq_nil_iff.1 hrest
      exact .inr ⟨o, rfl, rfl⟩
  | some m =>
      obtain ⟨o', rest, rfl, hnil⟩ := lexemesOf_eq_cons hrest
      obtain rfl : rest = [] := List.map_eq_nil_iff.1 hnil
      exact .inl ⟨o, o', m, rfl, rfl⟩

def startsMark : List Token → Bool
  | ⟨_, .mark _⟩ :: _ => true
  | _ => false

/-! ### Steps of the reader -/

/-- Goes on behind a finished particle: in the group around it, if there is one. -/
def resume (bound stop : Nat) (p : Particle) (rest : List Token) :
    List OpenGroup → Except Failure (Particle × List Token)
  | [] => .ok (p, rest)
  | parent :: outer => readSeparator bound stop outer (parent.add p) rest

section Steps

variable {bound stop : Nat} {outer : List OpenGroup} {g : OpenGroup} {toks : List Token}
  {r : Particle × List Token}

/-- All that can stand where a member must: a name, or a group that is not too deep. -/
theorem readMember_cases (h : readMember bound stop outer g toks = .ok r) :
    ∃ rest : List Token, rest.length < toks.length ∧
      ((∃ n mark, lexemesOf toks = .name n :: (markLexemes mark ++ lexemesOf rest) ∧
          readSeparator bound stop outer (g.add (.name n mark)) rest = .ok r) ∨
        (lexemesOf toks = .leftParen :: lexemesOf rest ∧ outer.length + 2 ≤ bound ∧
          readMember bound stop (g :: outer) .start rest = .ok r)) := by
  unfold readMember at h
  split at h
  · next n _ m rest =>
      exact ⟨rest, by simp only [List.length_cons]; omega, .inl ⟨n, some m, rfl, h⟩⟩
  · next n rest _ => exact ⟨rest, by simp, .inl ⟨n, none, rfl, h⟩⟩
  · next rest =>
      split at h
      · next hroom => exact ⟨rest, by simp, .inr ⟨rfl, hroom, h⟩⟩
      · cases h
  · cases h
  · cases h
  · cases h

/-- All that can stand behind a member: the end of the group, or a separator of its kind. -/
theorem readSeparator_cases (h : readSeparator bound stop outer g toks = .ok r) :
    ∃ rest : List Token, rest.length < toks.length ∧
      ((∃ mark, lexemesOf toks = .rightParen :: (markLexemes mark ++ lexemesOf rest) ∧
          resume bound stop (g.close mark) rest outer = .ok r) ∨
        (∃ kind g', lexemesOf toks = GroupKind.lexeme kind :: lexemesOf rest ∧
          g.separate? kind = some g' ∧ readMember bound stop outer g' rest = .ok r)) := by
  unfold readSeparator at h
  split at h
  · next m rest =>
      exact ⟨rest, by simp only [List.length_cons]; omega,
        .inl ⟨some m, rfl, by cases outer <;> exact h⟩⟩
  · next rest _ => exact ⟨rest, by simp, .inl ⟨none, rfl, by cases outer <;> exact h⟩⟩
  · next rest =>
      split at h
      · next g' hsep => exact ⟨rest, by simp, .inr ⟨.sequence, g', rfl, hsep, h⟩⟩
      · cases h
  · next rest =>
      split at h
      · next g' hsep => exact ⟨rest, by simp, .inr ⟨.choice, g', rfl, hsep, h⟩⟩
      · cases h
  · cases h
  · cases h

variable {ts rest : List Token} {mark : Option Mark}

theorem readMember_name {n : Text} (hts : lexemesOf ts = .name n :: markLexemes mark)
    (hmark : startsMark rest = false) :
    readMember bound stop outer g (ts ++ rest) =
      readSeparator bound stop outer (g.add (.name n mark)) rest := by
  obtain ⟨o, o', m, rfl, rfl⟩ | ⟨o, rfl, rfl⟩ := lexemesOf_eq_marked hts
  · rfl
  · rw [List.singleton_append, readMember]
    rintro o' m rest' rfl
    cases hmark

theorem readMember_leftParen {o : Nat} (hroom : outer.length + 2 ≤ bound) :
    readMember bound stop outer g (⟨o, .leftParen⟩ :: rest) =
      readMember bound stop (g :: outer) .start rest := by
  rw [readMember, if_pos hroom]

theorem readSeparator_rightParen (hts : lexemesOf ts = .rightParen :: markLexemes mark)
    (hmark : startsMark rest = false) :
    readSeparator bound stop outer g (ts ++ rest) =
      resume bound stop (g.close mark) rest outer := by
  obtain ⟨o, o', m, rfl, rfl⟩ | ⟨o, rfl, rfl⟩ := lexemesOf_eq_marked hts
  · cases outer <;> rfl
  · have hrest : ∀ o' m rest', rest = ⟨o', .mark m⟩ :: rest' → False := by
      rintro o' m rest' rfl
      cases hmark
    cases outer <;> simp only [List.singleton_append, readSeparator, resume]

theorem readSeparator_separator {o : Nat} {kind : GroupKind} {g' : OpenGroup}
    (hsep : g.separate? kind = some g') :
    readSeparator bound stop outer g (⟨o, kind.lexeme⟩ :: rest) =
      readMember bound stop outer g' rest := by
  cases kind <;> simp [GroupKind.lexeme, readSeparator, hsep]

end Steps

/-! ### Open groups -/

namespace OpenGroup

def separator (g : OpenGroup) : Lexeme :=
  (g.kind.getD .sequence).lexeme

/-- The lexemes of an open group up to where its next member must stand. -/
def written (g : OpenGroup) : List Lexeme :=
  .leftParen :: g.members.reverse.flatMap fun p => p.lexemes ++ [g.separator]

/-- An open group whose next member must stand here: its members are particles of element
content that may stand `depth` groups deep, and there is a separator behind each. -/
structure Awaiting (bound depth : Nat) (g : OpenGroup) : Prop where
  kind_iff : g.kind = none ↔ g.members = []
  isElementModel : ∀ p ∈ g.members, p.IsElementModel
  nesting_le : ∀ p ∈ g.members, p.nesting + depth ≤ bound

theorem awaiting_start (bound depth : Nat) : OpenGroup.start.Awaiting bound depth :=
  ⟨by simp [start], by simp [start], by simp [start]⟩

@[simp] theorem written_start : OpenGroup.start.written = [.leftParen] := rfl

theorem flatMap_separated (kind : GroupKind) (ps : List Particle) (p : Particle) :
    (ps.flatMap fun q => q.lexemes ++ [kind.lexeme]) ++ p.lexemes =
      memberLexemes kind (ps ++ [p]) := by
  induction ps with
  | nil => simp [memberLexemes, tailLexemes]
  | cons q qs ih =>
      have htail : tailLexemes kind (qs ++ [p]) =
          kind.lexeme :: memberLexemes kind (qs ++ [p]) :=
        tailLexemes_eq kind (by simp)
      simp [memberLexemes, htail, ← ih]

theorem lexemes_close_add (g : OpenGroup) (p : Particle) (mark : Option Mark) :
    ((g.add p).close mark).lexemes =
      g.written ++ p.lexemes ++ .rightParen :: markLexemes mark := by
  have h := flatMap_separated (g.kind.getD .sequence) g.members.reverse p
  simp only [close, add, lexemes, written, separator, List.reverse_cons, ← h]
  simp

/-- A separator behind the member `p` leads back to a group that awaits a member. -/
theorem separate?_add {bound depth : Nat} {g g' : OpenGroup} {p : Particle} {kind : GroupKind}
    (hg : g.Awaiting bound depth) (hp : p.IsElementModel) (hn : p.nesting + depth ≤ bound)
    (h : (g.add p).separate? kind = some g') :
    g'.Awaiting bound depth ∧ g'.written = g.written ++ p.lexemes ++ [kind.lexeme] := by
  have hg' : g' = ⟨some kind, p :: g.members⟩ ∧ (g.kind = none ∨ g.kind = some kind) := by
    unfold separate? at h
    cases hk : g.kind with
    | none =>
        simp only [add, hk] at h
        cases h
        exact ⟨rfl, .inl rfl⟩
    | some k =>
        simp only [add, hk] at h
        split at h
        · next heq =>
            cases h
            subst heq
            exact ⟨rfl, .inr rfl⟩
        · cases h
  obtain ⟨rfl, hkind⟩ := hg'
  refine ⟨⟨by simp, ?_, ?_⟩, ?_⟩
  · simpa using ⟨hp, hg.isElementModel⟩
  · simpa using ⟨hn, hg.nesting_le⟩
  · rcases hkind with hk | hk
    · simp [written, hg.kind_iff.1 hk, separator]
    · simp [written, hk, separator]

/-- A group that is closed behind the member `p` is a group of element content. -/
theorem close_add_isElementModel {bound depth : Nat} {g : OpenGroup} {p : Particle}
    (hg : g.Awaiting bound (depth + 1)) (hp : p.IsElementModel)
    (hn : p.nesting + (depth + 1) ≤ bound) (mark : Option Mark) :
    ((g.add p).close mark).IsElementModel ∧
      ((g.add p).close mark).nesting + depth ≤ bound := by
  constructor
  · refine .group (by simp [add]) ?_ ?_
    · intro hk
      have hne : g.members ≠ [] := by
        intro hnil
        simp [add, hg.kind_iff.2 hnil] at hk
      have := List.length_pos_iff.2 hne
      simp [add]
      omega
    · simpa [add, or_imp, forall_and] using ⟨hg.isElementModel, hp⟩
  · have hall : nestingAll (p :: g.members).reverse ≤ bound - (depth + 1) := by
      rw [nestingAll_le_iff]
      intro q hq
      have hq : q = p ∨ q ∈ g.members := by simpa [or_comm] using hq
      rcases hq with rfl | hq
      · omega
      · have := hg.nesting_le q hq
        omega
    simp only [close, add, nesting]
    omega

end OpenGroup

inductive AllAwaiting (bound : Nat) : List OpenGroup → Prop
  | nil : AllAwaiting bound []
  | cons {g : OpenGroup} {outer : List OpenGroup} :
      g.Awaiting bound (outer.length + 1) → AllAwaiting bound outer →
      AllAwaiting bound (g :: outer)

def written : List OpenGroup → List Lexeme
  | [] => []
  | g :: outer => written outer ++ g.written

/-- What a run that finishes the outermost group has read: `before` are the lexemes behind it
when it began. -/
structure Finishes (bound : Nat) (before : List Lexeme) (toks : List Token) (q : Particle)
    (rest : List Token) : Prop where
  isGroup : q.IsGroup
  isElementModel : q.IsElementModel
  nesting_le : q.nesting ≤ bound
  lexemes_eq : before ++ lexemesOf toks = q.lexemes ++ lexemesOf rest

theorem Finishes.of_eq {bound : Nat} {before before' : List Lexeme}
    {toks toks' rest : List Token} {q : Particle} (h : Finishes bound before toks q rest)
    (heq : before' ++ lexemesOf toks' = before ++ lexemesOf toks) :
    Finishes bound before' toks' q rest :=
  ⟨h.isGroup, h.isElementModel, h.nesting_le, heq.trans h.lexemes_eq⟩

/-! ### From the reader to the grammar -/

mutual

/-- From where a member must stand, the lexemes of the open groups and of the tokens are those
of the group that is read and of the tokens that are left. -/
theorem readMember_sound {bound stop : Nat} {outer : List OpenGroup} {g : OpenGroup}
    {toks rest : List Token} {q : Particle} (hstack : AllAwaiting bound (g :: outer))
    (hdepth : outer.length + 1 ≤ bound)
    (h : readMember bound stop outer g toks = .ok (q, rest)) :
    Finishes bound (written (g :: outer)) toks q rest := by
  obtain ⟨next, hlen, ⟨n, mark, hls, hnext⟩ | ⟨hls, hroom, hnext⟩⟩ := readMember_cases h
  · have hrun :=
      readSeparator_sound hstack hdepth .name (by simpa [nesting] using hdepth) hnext
    exact hrun.of_eq (by simp [lexemes, hls])
  · -- the groups around the new one still await a member, which the new one will be
    have hinner : AllAwaiting bound (.start :: g :: outer) :=
      .cons (OpenGroup.awaiting_start _ _) hstack
    have hrun := readMember_sound hinner (by rw [List.length_cons]; omega) hnext
    exact hrun.of_eq (by simp [written, hls])
termination_by toks.length

/-- From behind a member, the lexemes of the open groups, of that member and of the tokens are
those of the group that is read and of the tokens that are left. -/
theorem readSeparator_sound {bound stop : Nat} {outer : List OpenGroup} {g : OpenGroup}
    {toks rest : List Token} {p q : Particle} (hstack : AllAwaiting bound (g :: outer))
    (hdepth : outer.length + 1 ≤ bound)
    (hp : p.IsElementModel) (hn : p.nesting + (outer.length + 1) ≤ bound)
    (h : readSeparator bound stop outer (g.add p) toks = .ok (q, rest)) :
    Finishes bound (written (g :: outer) ++ p.lexemes) toks q rest := by
  obtain ⟨⟩ | ⟨hg, houter⟩ := hstack
  obtain ⟨next, hlen, ⟨mark, hls, hnext⟩ | ⟨kind, g', hls, hsep, hnext⟩⟩ :=
    readSeparator_cases h
  · -- the group that ends is the member that was awaited in the next one, if there is one
    have hclosed := OpenGroup.close_add_isElementModel hg hp hn mark
    have hlexemes := OpenGroup.lexemes_close_add g p mark
    cases houter with
    | nil =>
        cases hnext
        exact ⟨trivial, hclosed.1, hclosed.2, by simp [written, hlexemes, hls]⟩
    | cons hparent houter =>
        have hrun := readSeparator_sound (.cons hparent houter) (by simp at hdepth; omega)
          hclosed.1 hclosed.2 hnext
        exact hrun.of_eq (by simp [written, hlexemes, hls])
  · obtain ⟨hg', hwritten⟩ := OpenGroup.separate?_add hg hp hn hsep
    have hrun := readMember_sound (.cons hg' houter) hdepth hnext
    exact hrun.of_eq (by simp [written, hwritten, hls])
termination_by toks.length

end

/-! ### From the grammar to the reader -/

/-- The canonical lexemes of a particle lead past it: the reader goes on with the particle as
one more member of the group that it is in. -/
def LeadsPast (bound stop : Nat) (p : Particle) : Prop :=
  ∀ (outer : List OpenGroup) (g : OpenGroup) (ts rest : List Token),
    p.nesting + (outer.length + 1) ≤ bound → lexemesOf ts = p.lexemes →
    startsMark rest = false →
      readMember bound stop outer g (ts ++ rest) =
        readSeparator bound stop outer (g.add p) rest

section Completeness

variable {bound stop : Nat}

theorem startsMark_of_lexemesOf_eq {ts rest : List Token} {l : Lexeme} {ls : List Lexeme}
    (h : lexemesOf ts = l :: ls) (hl : ∀ m, l ≠ .mark m) :
    startsMark (ts ++ rest) = false := by
  obtain ⟨o, ts, rfl, -⟩ := lexemesOf_eq_cons h
  cases l with
  | mark m => exact absurd rfl (hl m)
  | _ => rfl

/-- Members behind separators begin with a separator, so that the mark of the member in front
of them, if it has one, was read with it. -/
theorem startsMark_tail {kind : GroupKind} {ps : List Particle} {ts rest : List Token}
    (hts : lexemesOf ts = tailLexemes kind ps) (hrest : startsMark rest = false) :
    startsMark (ts ++ rest) = false := by
  cases ps with
  | nil =>
      obtain rfl : ts = [] := List.map_eq_nil_iff.1 hts
      exact hrest
  | cons p ps =>
      exact startsMark_of_lexemesOf_eq hts (by cases kind <;> simp [GroupKind.lexeme])

theorem separate?_of_kind {g : OpenGroup} {kind : GroupKind}
    (h : g.kind = none ∨ g.kind = some kind) :
    g.separate? kind = some ⟨some kind, g.members⟩ := by
  rcases g with ⟨k, members⟩
  rcases h with rfl | rfl <;> simp [OpenGroup.separate?]

/-- Members of a group, each behind a separator, become members of the group that is open. -/
theorem readSeparator_tail (outer : List OpenGroup) {kind : GroupKind} (ps : List Particle)
    (hps : ∀ p ∈ ps, LeadsPast bound stop p)
    (hn : ∀ p ∈ ps, p.nesting + (outer.length + 1) ≤ bound) (g : OpenGroup)
    (hg : g.kind = none ∨ g.kind = some kind) (ts rest : List Token)
    (hts : lexemesOf ts = tailLexemes kind ps) (hrest : startsMark rest = false) :
    ∃ g' : OpenGroup, g'.members = ps.reverse ++ g.members ∧
      g'.kind = (if ps = [] then g.kind else some kind) ∧
      readSeparator bound stop outer g (ts ++ rest) =
        readSeparator bound stop outer g' rest := by
  induction ps generalizing g ts with
  | nil =>
      obtain rfl : ts = [] := List.map_eq_nil_iff.1 hts
      exact ⟨g, rfl, by simp, rfl⟩
  | cons p ps ih =>
      obtain ⟨o, ts, rfl, hmore⟩ := lexemesOf_eq_cons hts
      obtain ⟨ts, ts', rfl, hp, htail⟩ := lexemesOf_eq_append hmore
      obtain ⟨g', hmembers, hkind, hrun⟩ := ih (fun q hq => hps q (by simp [hq]))
        (fun q hq => hn q (by simp [hq])) (OpenGroup.add ⟨some kind, g.members⟩ p)
          (.inr rfl) ts' htail
      refine ⟨g', by simpa [OpenGroup.add] using hmembers, ?_, ?_⟩
      · cases ps <;> simpa [OpenGroup.add] using hkind
      · rw [List.cons_append, List.append_assoc,
          readSeparator_separator (separate?_of_kind hg),
          hps p (by simp) outer _ ts _ (hn p (by simp)) hp (startsMark_tail htail hrest), hrun]

/-- The lexemes of a group behind its parenthesis are read to the end of the group. -/
theorem readMember_group {kind : GroupKind} {members : List Particle} {mark : Option Mark}
    {outer : List OpenGroup} {ts rest : List Token} (hne : members ≠ [])
    (htwo : kind = .choice → 2 ≤ members.length)
    (hmembers : ∀ p ∈ members, LeadsPast bound stop p)
    (hn : nestingAll members + (outer.length + 1) ≤ bound)
    (hts : lexemesOf ts = memberLexemes kind members ++ .rightParen :: markLexemes mark)
    (hrest : startsMark rest = false) :
    readMember bound stop outer .start (ts ++ rest) =
      resume bound stop (.group kind members mark) rest outer := by
  obtain ⟨p, ps, rfl⟩ := List.exists_cons_of_ne_nil hne
  have hdepth : ∀ q ∈ p :: ps, q.nesting + (outer.length + 1) ≤ bound := by
    intro q hq
    have := nestingAll_le_iff.1 (Nat.le_refl _) q hq
    omega
  -- the tokens are those of the first member, those of the others and those of the end
  obtain ⟨ts, tsClose, rfl, hmem, hclose⟩ := lexemesOf_eq_append hts
  obtain ⟨ts, tsTail, rfl, hp, htail⟩ := lexemesOf_eq_append hmem
  have hstartClose : startsMark (tsClose ++ rest) = false :=
    startsMark_of_lexemesOf_eq hclose (by simp)
  obtain ⟨g', hmembers', hkind, hrun⟩ := readSeparator_tail outer ps
    (fun q hq => hmembers q (by simp [hq])) (fun q hq => hdepth q (by simp [hq]))
    (OpenGroup.start.add p) (.inl rfl) tsTail (tsClose ++ rest) htail hstartClose
  have hgroup : g'.close mark = .group kind (p :: ps) mark := by
    -- a group without separators is taken for a sequence, and a choice has one
    have hk : g'.kind.getD .sequence = kind := by
      cases ps with
      | cons q qs => simp [hkind]
      | nil =>
          cases kind with
          | sequence => simp [hkind, OpenGroup.add, OpenGroup.start]
          | choice => simp at htwo
    simp [OpenGroup.close, hk, hmembers', OpenGroup.add, OpenGroup.start]
  rw [List.append_assoc, List.append_assoc,
    hmembers p (by simp) outer _ ts _ (hdepth p (by simp)) hp
    (startsMark_tail htail hstartClose), hrun, readSeparator_rightParen hclose hrest, hgroup]

theorem leadsPast_of_isElementModel {p : Particle} (hp : p.IsElementModel) :
    LeadsPast bound stop p := by
  induction hp with
  | name =>
      intro outer g ts rest _ hts hrest
      exact readMember_name hts hrest
  | group hne htwo _ ih =>
      intro outer g ts rest hn hts hrest
      obtain ⟨o, ts, rfl, hbody⟩ := lexemesOf_eq_cons hts
      simp only [nesting] at hn
      rw [List.cons_append, readMember_leftParen (by omega),
        readMember_group hne htwo ih (by simp only [List.length_cons]; omega) hbody hrest]
      rfl

end Completeness

end Doctype.Content
