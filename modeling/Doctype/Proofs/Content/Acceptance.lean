import Doctype.Proofs.Content.Reading

/-!
The parser of content models accepts exactly its grammar. `Spec.ofTokens` succeeds for the
lexemes of a model and gives the specification that they write (`Spec.ofTokens_eq_ok_iff`), and
`Spec.parse` for the texts that `Grammar.Accepts` describes (`Spec.parse_eq_ok_iff`). The
grammar is unambiguous because the parser is a function.
-/

namespace Doctype.Content

open Particle

theorem bind_eq_ok_iff {ε α β : Type} {x : Except ε α} {f : α → Except ε β} {b : β} :
    (x >>= f) = .ok b ↔ ∃ a, x = .ok a ∧ f a = .ok b := by
  cases x <;> simp [bind, Except.bind]

theorem bind_eq_error_iff {ε α β : Type} {x : Except ε α} {f : α → Except ε β} {e : ε} :
    (x >>= f) = .error e ↔ x = .error e ∨ ∃ a, x = .ok a ∧ f a = .error e := by
  cases x <;> simp [bind, Except.bind]

/-! ### Mixed content -/

/-- Whether mixed content with the names `ns` can end with a mark or its absence. -/
def MixedMark (ns : List Text) (mark : Option Mark) : Prop :=
  mark = some .zeroOrMore ∨ (mark = none ∧ ns = [])

theorem mixedMark_of_closeMixed {stop : Nat} {names : List Text} {toks rest : List Token}
    {q : Particle} (h : closeMixed stop names toks = .ok (q, rest)) :
    ∃ mark, q = Grammar.mixedModel names.reverse mark ∧
      lexemesOf toks = markLexemes mark ++ lexemesOf rest ∧ MixedMark names.reverse mark := by
  unfold closeMixed at h
  dsimp only at h
  split at h
  · cases h
    exact ⟨some .zeroOrMore, rfl, rfl, .inl rfl⟩
  · cases h
  · split at h
    · next hempty =>
        cases h
        exact ⟨none, rfl, rfl, .inr ⟨rfl, by simpa using hempty⟩⟩
    · split at h <;> cases h

theorem closeMixed_of_mixedMark {stop : Nat} {names : List Text} {ts : List Token}
    {mark : Option Mark} (hmark : MixedMark names.reverse mark)
    (hts : lexemesOf ts = markLexemes mark) :
    closeMixed stop names ts = .ok (Grammar.mixedModel names.reverse mark, []) := by
  rcases hmark with rfl | ⟨rfl, hnames⟩
  · obtain ⟨o, ts, rfl, hnil⟩ := lexemesOf_eq_cons hts
    obtain rfl : ts = [] := List.map_eq_nil_iff.1 hnil
    rfl
  · obtain rfl : ts = [] := List.map_eq_nil_iff.1 hts
    obtain rfl : names = [] := by simpa using hnames
    rfl

/-- What is read behind `#PCDATA`: names behind bars, a parenthesis and the mark that they call
for. -/
theorem readMixed_sound {stop : Nat} {names : List Text} {toks rest : List Token}
    {q : Particle} (h : readMixed stop names toks = .ok (q, rest)) :
    ∃ ns mark, q = Grammar.mixedModel (names.reverse ++ ns) mark ∧
      lexemesOf toks =
        Grammar.barredNames ns ++ .rightParen :: (markLexemes mark ++ lexemesOf rest) ∧
      MixedMark (names.reverse ++ ns) mark := by
  fun_induction readMixed stop names toks with
  | case1 names _ toks =>
      obtain ⟨mark, hq, hls, hmark⟩ := mixedMark_of_closeMixed h
      exact ⟨[], mark, by simpa using hq, by simp [Grammar.barredNames, hls],
        by simpa using hmark⟩
  | case3 names _ _ n toks _ ih =>
      obtain ⟨ns, mark, hq, hls, hmark⟩ := ih h
      refine ⟨n :: ns, mark, by simpa using hq, ?_, by simpa using hmark⟩
      simpa [Grammar.barredNames] using hls
  | _ => cases h

/-- Names behind bars, a parenthesis and the mark that they call for are read to their end. -/
theorem readMixed_complete {stop : Nat} {mark : Option Mark} (ns names : List Text)
    (ts : List Token) (hmark : MixedMark (names.reverse ++ ns) mark)
    (hts : lexemesOf ts = Grammar.barredNames ns ++ .rightParen :: markLexemes mark) :
    readMixed stop names ts = .ok (Grammar.mixedModel (names.reverse ++ ns) mark, []) := by
  induction ns generalizing names ts with
  | nil =>
      obtain ⟨o, ts, rfl, hclose⟩ := lexemesOf_eq_cons hts
      rw [readMixed]
      simpa using closeMixed_of_mixedMark (by simpa using hmark) hclose
  | cons n ns ih =>
      obtain ⟨o, ts, rfl, hname⟩ := lexemesOf_eq_cons hts
      obtain ⟨o', ts, rfl, hmore⟩ := lexemesOf_eq_cons hname
      have hstart : ∀ o' m rest, ts = ⟨o', .mark m⟩ :: rest → False := by
        rintro o' m rest rfl
        cases ns <;> cases hmore
      have hih := ih (n :: names) ts (by simpa using hmark) hmore
      rw [readMixed]
      · simpa using hih
      · exact hstart

/-! ### Tokens -/

theorem expectEnd_eq_ok_iff {toks : List Token} : expectEnd toks = .ok () ↔ toks = [] := by
  cases toks <;> simp [expectEnd]

theorem Grammar.mixed_iff {ls : List Lexeme} {p : Particle} :
    Grammar.Mixed ls p ↔ ∃ ns mark, p = Grammar.mixedModel ns mark ∧ MixedMark ns mark ∧
      ls = .leftParen :: .pcdata ::
        (Grammar.barredNames ns ++ .rightParen :: markLexemes mark) := by
  constructor
  · intro h
    cases h with
    | plain => exact ⟨[], none, rfl, .inr ⟨rfl, rfl⟩, rfl⟩
    | starred => exact ⟨[], some .zeroOrMore, rfl, .inl rfl, rfl⟩
    | @names n ns => exact ⟨n :: ns, some .zeroOrMore, rfl, .inl rfl, rfl⟩
  · rintro ⟨ns, mark, rfl, rfl | ⟨rfl, rfl⟩, rfl⟩
    · cases ns with
      | nil => exact .starred
      | cons n ns => exact .names
    · exact .plain

theorem readMixed_eq_ok_iff {stop o o' : Nat} {toks : List Token} {p : Particle} :
    readMixed stop [] toks = .ok (p, []) ↔
      Grammar.Mixed (lexemesOf (⟨o, .leftParen⟩ :: ⟨o', .pcdata⟩ :: toks)) p := by
  rw [Grammar.mixed_iff]
  constructor
  · intro h
    obtain ⟨ns, mark, hp, hls, hmark⟩ := readMixed_sound h
    exact ⟨ns, mark, by simpa using hp, by simpa using hmark, by simp [hls]⟩
  · rintro ⟨ns, mark, rfl, hmark, hls⟩
    have hls : lexemesOf toks = Grammar.barredNames ns ++ .rightParen :: markLexemes mark := by
      simpa using hls
    simpa using readMixed_complete ns [] toks (by simpa using hmark) hls

/-- A group is read from the tokens behind its parenthesis exactly if the grammar has it. -/
theorem readMember_start_eq_ok_iff {bound stop o : Nat} {toks : List Token} {p : Particle}
    (hbound : 1 ≤ bound) :
    readMember bound stop [] .start toks = .ok (p, []) ↔
      Grammar.Group (lexemesOf (⟨o, .leftParen⟩ :: toks)) p ∧ p.nesting ≤ bound := by
  rw [Grammar.group_iff]
  constructor
  · intro h
    have hstack : AllAwaiting bound [.start] := .cons (OpenGroup.awaiting_start _ _) .nil
    have hrun := readMember_sound hstack hbound h
    exact ⟨⟨hrun.isGroup, hrun.isElementModel, by simpa [written] using hrun.lexemes_eq⟩,
      hrun.nesting_le⟩
  · rintro ⟨⟨hgroup, hmodel, hls⟩, hn⟩
    cases hmodel with
    | name => exact hgroup.elim
    | group hne htwo hmembers =>
        have hall := fun q hq => @leadsPast_of_isElementModel bound stop q (hmembers q hq)
        have hrun : readMember bound stop [] .start (toks ++ []) = resume bound stop _ [] [] :=
          readMember_group hne htwo hall (by simpa [nesting] using hn)
            (by simpa [lexemes] using hls)
            rfl
        simpa [resume] using hrun

theorem Grammar.Group.exists_cons {ls : List Lexeme} {p : Particle} (h : Grammar.Group ls p) :
    ∃ l rest, ls = .leftParen :: l :: rest ∧ l ≠ .pcdata := by
  have hcp {ls' : List Lexeme} {q : Particle} (hq : Grammar.Cp ls' q) :
      ∃ l rest, ls' = l :: rest ∧ l ≠ .pcdata := by
    cases hq with
    | name n mark => exact ⟨_, _, rfl, by simp⟩
    | group hg => cases hg <;> exact ⟨_, _, rfl, by simp⟩
  cases h with
  | sequence mark hp _ | choice mark hp _ =>
      obtain ⟨l, rest, rfl, hl⟩ := hcp hp
      exact ⟨l, _, rfl, hl⟩

theorem Grammar.Model.exists_cons {bound : Nat} {ls : List Lexeme} {spec : Spec}
    (h : Grammar.Model bound ls spec) : ∃ rest, ls = .leftParen :: rest := by
  cases h with
  | mixed hm => cases hm <;> exact ⟨_, rfl⟩
  | children hg _ =>
      obtain ⟨l, rest, rfl, -⟩ := hg.exists_cons
      exact ⟨_, rfl⟩

theorem Grammar.Group.one_le_nesting {ls : List Lexeme} {p : Particle}
    (h : Grammar.Group ls p) : 1 ≤ p.nesting := by
  cases h <;> simp [nesting]

/-- The tokens of a model, and no others, are read, and the specification is the one that they
write. -/
theorem Spec.ofTokens_eq_ok_iff {bound : Nat} {toks : List Token} {spec : Spec} :
    Spec.ofTokens bound toks = .ok spec ↔ Grammar.Model bound (lexemesOf toks) spec := by
  unfold Spec.ofTokens
  dsimp only
  split
  · next o o' rest =>
      simp only [bind_eq_ok_iff, Prod.exists]
      constructor
      · rintro ⟨p, left, hread, ⟨⟩, hend, hspec⟩
        obtain rfl := expectEnd_eq_ok_iff.1 hend
        cases hspec
        exact .mixed (readMixed_eq_ok_iff.1 hread)
      · intro h
        cases h with
        | mixed hm => exact ⟨_, [], readMixed_eq_ok_iff.2 hm, (), rfl, rfl⟩
        | children hg _ =>
            obtain ⟨l, ls, hls, hl⟩ := hg.exists_cons
            simp only [lexemesOf_cons, List.cons.injEq] at hls
            exact absurd hls.2.1.symm hl
  · next o rest hplain =>
      -- the grammar may have mixed content here only if `#PCDATA` stood in front
      have hmixed {p : Particle} :
          ¬ Grammar.Mixed (lexemesOf (⟨o, .leftParen⟩ :: rest)) p := by
        intro h
        obtain ⟨ns, mark, -, -, hls⟩ := Grammar.mixed_iff.1 h
        obtain ⟨o', rest', rfl, -⟩ := lexemesOf_eq_cons (List.cons.inj hls).2
        exact hplain o' rest' rfl
      split
      · next hbound =>
          simp only [bind_eq_ok_iff, Prod.exists]
          constructor
          · rintro ⟨p, left, hread, ⟨⟩, hend, hspec⟩
            obtain rfl := expectEnd_eq_ok_iff.1 hend
            cases hspec
            obtain ⟨hg, hn⟩ := (readMember_start_eq_ok_iff hbound).1 hread
            exact .children hg hn
          · intro h
            cases h with
            | mixed hm => exact absurd hm hmixed
            | children hg hn =>
                exact ⟨_, [], (readMember_start_eq_ok_iff hbound).2 ⟨hg, hn⟩, (), rfl, rfl⟩
      · next hbound =>
          constructor
          · intro h
            cases h
          · intro h
            cases h with
            | mixed hm => exact absurd hm hmixed
            | children hg hn => exact absurd (hg.one_le_nesting.trans hn) hbound
  · next hnot =>
      constructor
      · intro h
        cases h
      · intro h
        obtain ⟨ls, hls⟩ := h.exists_cons
        obtain ⟨o, rest, rfl, -⟩ := lexemesOf_eq_cons hls
        exact absurd rfl (hnot o rest)

/-! ### Texts -/

theorem Lexes.trimBy_ne {raw word : Text} {ls : List Lexeme} (h : Lexes raw (.leftParen :: ls))
    (hword : '(' ∉ word) : Text.trimBy isBlank raw ≠ word := by
  have hsub : Lexeme.leftParen.print ⊆ raw := h.subset_of_mem (List.mem_cons_self ..)
  have hmem : '(' ∈ raw := hsub (by simp)
  rintro rfl
  exact hword (Text.mem_trimBy hmem (by decide))

theorem Spec.parse_eq_ofTokens {bound o : Nat} {raw : Text} {rest : List Token}
    (h : tokens raw = .ok (⟨o, .leftParen⟩ :: rest)) :
    Spec.parse bound raw = Spec.ofTokens bound (⟨o, .leftParen⟩ :: rest) := by
  have hlex : Lexes raw (.leftParen :: lexemesOf rest) := exists_tokens_iff.1 ⟨_, h, rfl⟩
  unfold Spec.parse
  -- none of the three texts that are told apart first has a parenthesis in it
  rw [if_neg (hlex.trimBy_ne (by decide)), if_neg (hlex.trimBy_ne (by decide)),
    if_neg (hlex.trimBy_ne (by simp)), h]
  rfl

/-- A text is accepted exactly if the grammar has it. -/
theorem Spec.parse_eq_ok_iff {bound : Nat} {raw : Text} {spec : Spec} :
    Spec.parse bound raw = .ok spec ↔ Grammar.Accepts bound raw spec := by
  constructor
  · intro h
    unfold Spec.parse at h
    dsimp only at h
    split at h
    · next hempty =>
        cases h
        exact .empty hempty
    · split at h
      · next hany =>
          cases h
          exact .any hany
      · split at h
        · cases h
        · obtain ⟨toks, htoks, h⟩ := bind_eq_ok_iff.1 h
          exact .model (exists_tokens_iff.1 ⟨toks, htoks, rfl⟩) (Spec.ofTokens_eq_ok_iff.1 h)
  · intro h
    cases h with
    | empty hempty => simp [Spec.parse, hempty]
    | any hany => simp [Spec.parse, hany]
    | model hlex hmodel =>
        obtain ⟨ls, rfl⟩ := hmodel.exists_cons
        obtain ⟨toks, htoks, hls⟩ := exists_tokens_iff.2 hlex
        obtain ⟨o, rest, rfl, rfl⟩ := lexemesOf_eq_cons hls
        rw [Spec.parse_eq_ofTokens htoks]
        exact Spec.ofTokens_eq_ok_iff.2 hmodel

/-! ### The grammar is unambiguous -/

theorem Grammar.Model.unique {bound : Nat} {ls : List Lexeme} {spec spec' : Spec}
    (h : Grammar.Model bound ls spec) (h' : Grammar.Model bound ls spec') : spec = spec' := by
  -- any offsets will do, and the reader is a function
  obtain ⟨toks, rfl⟩ : ∃ toks, lexemesOf toks = ls := by
    refine ⟨ls.map (⟨0, ·⟩), ?_⟩
    simp [lexemesOf, Function.comp_def]
  have hread := Spec.ofTokens_eq_ok_iff.2 h
  rw [Spec.ofTokens_eq_ok_iff.2 h'] at hread
  cases hread
  rfl

/-- A group has one tree, whatever bound its nesting may keep. -/
theorem Grammar.Group.unique {ls : List Lexeme} {p q : Particle} (hp : Grammar.Group ls p)
    (hq : Grammar.Group ls q) : p = q := by
  have h := Grammar.Model.unique (.children hp (Nat.le_max_left p.nesting q.nesting))
    (.children hq (Nat.le_max_right p.nesting q.nesting))
  cases h
  rfl

theorem Grammar.Mixed.unique {ls : List Lexeme} {p q : Particle} (hp : Grammar.Mixed ls p)
    (hq : Grammar.Mixed ls q) : p = q := by
  have h := @Grammar.Model.unique 0 _ _ _ (.mixed hp) (.mixed hq)
  cases h
  rfl

theorem Grammar.Accepts.of_lexes {bound : Nat} {raw raw' : Text} {ls : List Lexeme}
    {spec : Spec} (hraw : Lexes raw ls) (hraw' : Lexes raw' ls)
    (h : Grammar.Accepts bound raw spec) : Grammar.Accepts bound raw' spec := by
  have hword {n : Text} (hn : Text.isName n = true) (ht : Text.trimBy isBlank raw = n) :
      Text.trimBy isBlank raw' = n := by
    obtain rfl := hraw.unique ((lexes_name_iff hn).2 ht)
    exact (lexes_name_iff hn).1 hraw'
  cases h with
  | empty ht => exact .empty (hword (by decide) ht)
  | any ht => exact .any (hword (by decide) ht)
  | model hlex hmodel =>
      obtain rfl := hlex.unique hraw
      exact .model hraw' hmodel

/-- The parser accepts exactly the grammar: it gives the specification that a text writes and
an error for every other text. A text has one list of lexemes, a list of lexemes one tree and a
text one specification, and blanks between the lexemes make no difference. -/
theorem Spec.parse_accepts_grammar (bound : Nat) (raw : Text) :
    (∀ spec, Spec.parse bound raw = .ok spec ↔ Grammar.Accepts bound raw spec) ∧
      ((∃ failure, Spec.parse bound raw = .error failure) ↔
        ¬ ∃ spec, Grammar.Accepts bound raw spec) ∧
      (∀ spec spec', Grammar.Accepts bound raw spec → Grammar.Accepts bound raw spec' →
        spec = spec') ∧
      (∀ ls ls', Lexes raw ls → Lexes raw ls' → ls = ls') ∧
      (∀ ls p q, (Grammar.Group ls p → Grammar.Group ls q → p = q) ∧
        (Grammar.Mixed ls p → Grammar.Mixed ls q → p = q) ∧
        ¬ (Grammar.Group ls p ∧ Grammar.Mixed ls q)) ∧
      (∀ raw' ls, Lexes raw ls → Lexes raw' ls → ∀ spec,
        Spec.parse bound raw = .ok spec ↔ Spec.parse bound raw' = .ok spec) := by
  refine ⟨fun spec => Spec.parse_eq_ok_iff, ?_, ?_, fun ls ls' => Lexes.unique, ?_, ?_⟩
  · simp only [← Spec.parse_eq_ok_iff]
    cases Spec.parse bound raw <;> simp
  · intro spec spec' h h'
    rw [← Spec.parse_eq_ok_iff] at h h'
    rw [h] at h'
    cases h'
    rfl
  · intro ls p q
    refine ⟨Grammar.Group.unique, Grammar.Mixed.unique, ?_⟩
    rintro ⟨hp, hq⟩
    have h := Grammar.Model.unique (.children hp (Nat.le_refl _)) (.mixed hq)
    cases h
  · intro raw' ls hraw hraw' spec
    rw [Spec.parse_eq_ok_iff, Spec.parse_eq_ok_iff]
    exact ⟨.of_lexes hraw hraw', .of_lexes hraw' hraw⟩

/-- The hypotheses are met by `(a|b)` with and without blanks. -/
theorem Spec.parse_accepts_grammar_spaced :
    let ls : List Lexeme := [.leftParen, .name ['a'], .bar, .name ['b'], .rightParen]
    let p : Particle := .group .choice [.name ['a'] none, .name ['b'] none] none
    Lexes " ( a |b)".toList ls ∧ Lexes "(a|b)".toList ls ∧ Grammar.Group ls p ∧
      Grammar.Accepts 1 " ( a |b)".toList (.children p) ∧
      Spec.parse 1 " ( a |b)".toList = .ok (.children p) ∧
      Spec.parse 1 "(a|b)".toList = .ok (.children p) := by
  intro ls p
  have hraw : Lexes " ( a |b)".toList ls :=
    exists_tokens_iff.1 ⟨[⟨1, .leftParen⟩, ⟨3, .name ['a']⟩, ⟨5, .bar⟩, ⟨6, .name ['b']⟩,
      ⟨7, .rightParen⟩], by decide +kernel, rfl⟩
  have hraw' : Lexes "(a|b)".toList ls :=
    exists_tokens_iff.1 ⟨[⟨0, .leftParen⟩, ⟨1, .name ['a']⟩, ⟨2, .bar⟩, ⟨3, .name ['b']⟩,
      ⟨4, .rightParen⟩], by decide +kernel, rfl⟩
  have hgroup : Grammar.Group ls p :=
    .choice none (.name ['a'] none) (.cons (.name ['b'] none) .nil)
  have haccepts : Grammar.Accepts 1 " ( a |b)".toList (.children p) :=
    .model hraw (.children hgroup (by decide))
  have hclaim := Spec.parse_accepts_grammar 1 " ( a |b)".toList
  have hparse := (hclaim.1 (.children p)).2 haccepts
  exact ⟨hraw, hraw', hgroup, haccepts, hparse, (hclaim.2.2.2.2.2 _ ls hraw hraw' _).1 hparse⟩

end Doctype.Content
