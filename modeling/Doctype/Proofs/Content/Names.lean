import Doctype.Proofs.Content.RoundTrip

/-!
The element names of a content model, in order. The walk through a tree with a stack of pending
trees lists the names as the recursion over the tree does, from left to right
(`Particle.elementNames_eq`), and so do the lexemes of the tree (`Particle.filterMap_lexemes`).
What is parsed has the lexemes of the text, so its names are the names among the tokens of the
text, in their order and with repeats (`Spec.elementNames_inOrder`).
-/

namespace Doctype.Content

def Lexeme.name? : Lexeme → Option Text
  | name n => some n
  | _ => none

namespace Particle

mutual

def names : Particle → List Text
  | name n _ => [n]
  | pcdata => []
  | group _ members _ => namesAll members

def namesAll : List Particle → List Text
  | [] => []
  | p :: ps => names p ++ namesAll ps

end

theorem namesAll_append (ps qs : List Particle) :
    namesAll (ps ++ qs) = namesAll ps ++ namesAll qs := by
  induction ps with
  | nil => rfl
  | cons p ps ih => rw [List.cons_append, namesAll, namesAll, ih, List.append_assoc]

theorem namesIn_eq (pending : List Particle) : namesIn pending = namesAll pending := by
  fun_induction namesIn pending with
  | case1 => rfl
  | case2 n mark pending ih => rw [ih, namesAll, names, List.singleton_append]
  | case3 pending ih => rw [ih, namesAll, names, List.nil_append]
  | case4 kind members mark pending ih =>
      -- the members are pushed in front of what was pending
      rw [ih, namesAll_append, namesAll, names]

theorem elementNames_eq (p : Particle) : p.elementNames = p.names := by
  rw [elementNames, namesIn_eq, namesAll, namesAll, List.append_nil]

theorem filterMap_markLexemes (mark : Option Mark) :
    (markLexemes mark).filterMap Lexeme.name? = [] := by
  cases mark <;> rfl

mutual

/-- The names among the lexemes of a tree are the names in it. -/
theorem filterMap_lexemes (p : Particle) : p.lexemes.filterMap Lexeme.name? = p.names := by
  cases p with
  | name n mark =>
      change n :: (markLexemes mark).filterMap Lexeme.name? = [n]
      rw [filterMap_markLexemes]
  | pcdata => rfl
  | group kind members mark =>
      have hmembers : (memberLexemes kind members).filterMap Lexeme.name? =
          namesAll members := by
        cases members with
        | nil => rfl
        | cons p ps =>
            rw [memberLexemes, List.filterMap_append, filterMap_lexemes p,
              filterMap_tailLexemes kind ps, namesAll]
      change (memberLexemes kind members ++ .rightParen :: markLexemes mark).filterMap
        Lexeme.name? = _
      rw [List.filterMap_append, hmembers, List.filterMap_cons, filterMap_markLexemes, names]
      exact List.append_nil _

theorem filterMap_tailLexemes (kind : GroupKind) (ps : List Particle) :
    (tailLexemes kind ps).filterMap Lexeme.name? = namesAll ps := by
  cases ps with
  | nil => rfl
  | cons p ps =>
      have hseparator : kind.lexeme.name? = none := by cases kind <;> rfl
      rw [tailLexemes, List.filterMap_cons, hseparator, List.filterMap_append,
        filterMap_lexemes p, filterMap_tailLexemes kind ps, namesAll]

end

end Particle

theorem Spec.lexes_of_parse {bound : Nat} {raw : Text} {s : Spec} {p : Particle}
    (h : Spec.parse bound raw = .ok s) (hp : s.model? = some p) : Lexes raw p.lexemes := by
  cases Spec.parse_eq_ok_iff.1 h with
  | empty _ => cases hp
  | any _ => cases hp
  | model hlex hmodel =>
      cases hmodel with
      | mixed hmixed =>
          cases hp
          exact hmixed.canonical ▸ hlex
      | children hg hn =>
          cases hp
          obtain ⟨-, -, rfl⟩ := Grammar.group_iff.1 hg
          exact hlex

/-- The walk through a tree lists the names in it from left to right. What is parsed with a
tree has been cut into tokens, and its names are those among the tokens, in their order and
with repeats. -/
theorem Spec.elementNames_inOrder :
    (∀ p : Particle, p.elementNames = p.names) ∧
      ∀ (bound : Nat) (raw : Text) (s : Spec) (p : Particle), Spec.parse bound raw = .ok s →
        s.model? = some p →
        ∃ toks, tokens raw = .ok toks ∧ s.elementNames = toks.filterMap fun tok =>
          tok.lexeme.name? := by
  refine ⟨Particle.elementNames_eq, fun bound raw s p h hp => ?_⟩
  obtain ⟨toks, htoks, hlexemes⟩ := exists_tokens_iff.2 (Spec.lexes_of_parse h hp)
  refine ⟨toks, htoks, ?_⟩
  calc s.elementNames = p.elementNames := by rw [Spec.elementNames, hp]
    _ = p.names := Particle.elementNames_eq p
    _ = (toks.map Token.lexeme).filterMap Lexeme.name? := by
      rw [hlexemes, Particle.filterMap_lexemes]
    _ = toks.filterMap fun tok => tok.lexeme.name? := List.filterMap_map

/-- A name that is met twice is listed twice. -/
theorem Spec.elementNames_inOrder_repeated :
    let s : Spec := .children (.group .sequence [.name ['a'] none,
      .group .choice [.name ['b'] none, .name ['a'] (some .optional)] (some .zeroOrMore)] none)
    Spec.parse 2 "(a, (b|a?)*)" = .ok s ∧ s.elementNames = [['a'], ['b'], ['a']] ∧
      ∃ toks, tokens "(a, (b|a?)*)" = .ok toks ∧ s.elementNames = toks.filterMap fun tok =>
        tok.lexeme.name? := by
  intro s
  have htoks : tokens "(a, (b|a?)*)" =
    .ok [⟨0, .leftParen⟩, ⟨1, .name ['a']⟩, ⟨2, .comma⟩, ⟨4, .leftParen⟩,
      ⟨5, .name ['b']⟩, ⟨6, .bar⟩, ⟨7, .name ['a']⟩, ⟨8, .mark .optional⟩, ⟨9, .rightParen⟩,
        ⟨10, .mark .zeroOrMore⟩, ⟨11, .rightParen⟩] := by decide +kernel
  have hparse : Spec.parse 2 "(a, (b|a?)*)" = .ok s := by
    rw [Spec.parse_eq_ofTokens htoks]
    rfl
  refine ⟨hparse, ?_, Spec.elementNames_inOrder.2 2 _ s _ hparse rfl⟩
  exact Spec.elementNames_inOrder.1 _

end Doctype.Content
