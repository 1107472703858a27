import Doctype.Proofs.Content.Acceptance

/-!
Printing and parsing content models undo each other. What is printed of a tree of element
content or of mixed content is read as that tree, and whatever the parser accepts is a keyword
or such a tree, so that printing what was parsed loses nothing (`Spec.parse_print_roundTrip`).
-/

namespace Doctype.Content

open Particle

theorem Grammar.Model.parse_print {bound : Nat} {p : Particle} {spec : Spec}
    (hmodel : Grammar.Model bound p.lexemes spec)
    (hnames : ∀ n, Mentions n p → Text.isName n = true) :
    Spec.parse bound p.print = .ok spec :=
  Spec.parse_eq_ok_iff.2 (.model (lexes_print hnames) hmodel)

/-! ### Element content -/

theorem parse_print_children {bound : Nat} {t : Particle} (hgroup : t.IsGroup)
    (hmodel : t.IsElementModel) (hnames : ∀ n, t.Mentions n → Text.isName n = true)
    (hn : t.nesting ≤ bound) : Spec.parse bound (Spec.children t).print = .ok (.children t) :=
  Grammar.Model.parse_print (.children (Grammar.group_iff.2 ⟨hgroup, hmodel, rfl⟩) hn) hnames

theorem isName_of_mentions {raw n : Text} {p : Particle} (h : Lexes raw p.lexemes)
    (hn : Mentions n p) : Text.isName n = true :=
  h.valid _ ((name_mem_lexemes_iff p).2 hn)

/-! ### Mixed content -/

theorem mentions_mixedModel_iff {n : Text} {ns : List Text} {mark : Option Mark} :
    Mentions n (Grammar.mixedModel ns mark) ↔ n ∈ ns := by
  constructor
  · rintro (_ | ⟨hp, hn⟩)
    rcases List.mem_cons.1 hp with rfl | hp
    · cases hn
    · obtain ⟨m, hm, rfl⟩ := List.mem_map.1 hp
      cases hn
      exact hm
  · intro hn
    exact .member (List.mem_cons_of_mem _ (List.mem_map.2 ⟨n, hn, rfl⟩)) .name

theorem parse_print_mixed {bound : Nat} {ns : List Text} {mark : Option Mark}
    (hmark : MixedMark ns mark) (hnames : ∀ n ∈ ns, Text.isName n = true) :
    Spec.parse bound (Spec.mixed (Grammar.mixedModel ns mark)).print =
      .ok (.mixed (Grammar.mixedModel ns mark)) := by
  have hmixed := Grammar.mixed_iff.2 ⟨ns, mark, rfl, hmark, rfl⟩
  refine Grammar.Model.parse_print (.mixed (hmixed.canonical ▸ hmixed)) fun n hn => ?_
  exact hnames n (mentions_mixedModel_iff.1 hn)

/-! ### What is parsed -/

/-- A specification that can come out of the parser: a keyword, or a tree of one of the two
kinds. -/
inductive Spec.Regular (bound : Nat) : Spec → Prop
  | empty : Regular bound .empty
  | any : Regular bound .any
  | children {t : Particle} : t.IsGroup → t.IsElementModel →
      (∀ n, t.Mentions n → Text.isName n = true) → t.nesting ≤ bound →
      Regular bound (.children t)
  | mixed {ns : List Text} {mark : Option Mark} : MixedMark ns mark →
      (∀ n ∈ ns, Text.isName n = true) → Regular bound (.mixed (Grammar.mixedModel ns mark))

theorem Spec.regular_of_parse {bound : Nat} {raw : Text} {spec : Spec}
    (h : Spec.parse bound raw = .ok spec) : Spec.Regular bound spec := by
  cases Spec.parse_eq_ok_iff.1 h with
  | empty _ => exact .empty
  | any _ => exact .any
  | model hlex hmodel =>
      cases hmodel with
      | mixed hmixed =>
          have hnames := fun n => isName_of_mentions (n := n) (hmixed.canonical ▸ hlex)
          obtain ⟨ns, mark, rfl, hmark, -⟩ := Grammar.mixed_iff.1 hmixed
          exact .mixed hmark fun n hn => hnames n (mentions_mixedModel_iff.2 hn)
      | children hg hn =>
          obtain ⟨hgroup, hmodel, rfl⟩ := Grammar.group_iff.1 hg
          exact .children hgroup hmodel (fun n => isName_of_mentions hlex) hn

theorem Spec.Regular.parse_print {bound : Nat} {spec : Spec} (h : Spec.Regular bound spec) :
    Spec.parse bound spec.print = .ok spec := by
  cases h with
  | empty => exact Spec.parse_eq_ok_iff.2 (.empty (by decide))
  | any => exact Spec.parse_eq_ok_iff.2 (.any (by decide))
  | children hgroup hmodel hnames hn => exact parse_print_children hgroup hmodel hnames hn
  | mixed hmark hnames => exact parse_print_mixed hmark hnames

/-- A tree of element content within the bound is read back from what is printed of it, and so
is mixed content. Conversely, all that is ever parsed is a keyword or a tree of one of these
two kinds, and it is read back from what is printed of it. -/
theorem Spec.parse_print_roundTrip (bound : Nat) :
    (∀ t : Particle, t.IsGroup → t.IsElementModel →
      (∀ n, t.Mentions n → Text.isName n = true) →
      t.nesting ≤ bound → Spec.parse bound (Spec.children t).print = .ok (.children t)) ∧
    (∀ ns : List Text, (∀ n ∈ ns, Text.isName n = true) → ∀ mark : Option Mark,
      mark = some .zeroOrMore ∨ (mark = none ∧ ns = []) →
        Spec.parse bound (Spec.mixed (Grammar.mixedModel ns mark)).print =
          .ok (.mixed (Grammar.mixedModel ns mark))) ∧
    (∀ (raw : Text) (spec : Spec), Spec.parse bound raw = .ok spec →
      (spec = .empty ∨ spec = .any ∨
        (∃ t : Particle, spec = .children t ∧ t.IsGroup ∧ t.IsElementModel ∧
          (∀ n, t.Mentions n → Text.isName n = true) ∧ t.nesting ≤ bound) ∨
        (∃ (ns : List Text) (mark : Option Mark), spec = .mixed (Grammar.mixedModel ns mark) ∧
          (∀ n ∈ ns, Text.isName n = true) ∧
          (mark = some .zeroOrMore ∨ (mark = none ∧ ns = [])))) ∧
      Spec.parse bound spec.print = .ok spec) := by
  refine ⟨fun t => parse_print_children, fun ns hnames mark hmark =>
    parse_print_mixed hmark hnames, fun raw spec h => ?_⟩
  have hregular := Spec.regular_of_parse h
  refine ⟨?_, hregular.parse_print⟩
  cases hregular with
  | empty => exact .inl rfl
  | any => exact .inr (.inl rfl)
  | @children t hgroup hmodel hnames hn =>
      exact .inr (.inr (.inl ⟨t, rfl, hgroup, hmodel, hnames, hn⟩))
  | @mixed ns mark hmark hnames => exact .inr (.inr (.inr ⟨ns, mark, rfl, hnames, hmark⟩))

/-- The hypotheses are met by `(a,(b|c)*)`, by `(#PCDATA|a)*` and by a text with blanks in
it. -/
theorem Spec.parse_print_roundTrip_nested :
    let t : Particle := .group .sequence [.name ['a'] none,
      .group .choice [.name ['b'] none, .name ['c'] none] (some .zeroOrMore)] none
    let m : Particle := Grammar.mixedModel [['a']] (some .zeroOrMore)
    Spec.parse 2 (Spec.children t).print = .ok (.children t) ∧
      Spec.parse 0 (Spec.mixed m).print = .ok (.mixed m) ∧
      Spec.parse 2 " (a, ( b | c )* ) ".toList = .ok (.children t) ∧
      Spec.parse 2 (Spec.children t).print = .ok (.children t) := by
  intro t m
  have hmodel : t.IsElementModel := by
    refine .group (by simp) (by simp) ?_
    simp only [List.forall_mem_cons, List.not_mem_nil, false_implies, implies_true, and_true]
    refine ⟨.name, .group (by simp) (by simp) ?_⟩
    simp [IsElementModel.name]
  have hnames : ∀ n, t.Mentions n → Text.isName n = true := by
    intro n hn
    have hmem : n = ['a'] ∨ n = ['b'] ∨ n = ['c'] := by
      simpa [t, lexemes, memberLexemes, tailLexemes, markLexemes, GroupKind.lexeme] using
        (name_mem_lexemes_iff t).2 hn
    rcases hmem with rfl | rfl | rfl <;> decide
  have hlex : Lexes " (a, ( b | c )* ) ".toList t.lexemes :=
    exists_tokens_iff.1 ⟨[⟨1, .leftParen⟩, ⟨2, .name ['a']⟩, ⟨3, .comma⟩, ⟨5, .leftParen⟩,
      ⟨7, .name ['b']⟩, ⟨9, .bar⟩, ⟨11, .name ['c']⟩, ⟨13, .rightParen⟩,
        ⟨14, .mark .zeroOrMore⟩, ⟨16, .rightParen⟩], by decide +kernel, rfl⟩
  have hparse : Spec.parse 2 " (a, ( b | c )* ) ".toList = .ok (.children t) :=
    Spec.parse_eq_ok_iff.2
      (.model hlex (.children (Grammar.group_iff.2 ⟨trivial, hmodel, rfl⟩) (by decide)))
  exact ⟨(Spec.parse_print_roundTrip 2).1 t trivial hmodel hnames (by decide),
    (Spec.parse_print_roundTrip 0).2.1 [['a']] (by decide) (some .zeroOrMore) (.inl rfl),
      hparse, ((Spec.parse_print_roundTrip 2).2.2 _ _ hparse).2⟩

end Doctype.Content
