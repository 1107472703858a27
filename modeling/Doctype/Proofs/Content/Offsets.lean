import Doctype.Proofs.Content.Stuck
import Doctype.Proofs.Text.Slicing

/-!
Where the errors of content models point. Tokens have the offsets where their lexemes begin in
the text (`Placed`), and where a text gives no tokens, there is a character that begins no
lexeme. The place that an error should point at is told by the grammar alone
(`Grammar.FailsAt`). Errors point there, and always into the text, but for two of them: one at
the end of a text takes the last token for a single byte, and one about what is no group is
always at zero (`Spec.offset_of_parse`).
-/

namespace Doctype

namespace Content

variable {bound p offset : Nat} {raw t s u : Text} {l : Lexeme} {before after ls : List Lexeme}
  {done toks : List Token} {failure : Failure}

/-! ### Tokens and their offsets -/

/-- `Placed offset t toks`: the tokens of a text `t` that begins at `offset` are `toks`, each
where it is written. -/
inductive Placed : Nat → Text → List Token → Prop
  | nil {offset : Nat} : Placed offset [] []
  | blank {offset : Nat} {c : Char} {t : Text} {toks : List Token} :
      isBlank c = true → Placed (offset + c.utf8Size) t toks → Placed offset (c :: t) toks
  | lexeme {offset : Nat} {l : Lexeme} {t : Text} {toks : List Token} :
      l.Valid → l.EndsBefore t → Placed (offset + Text.size l.print) t toks →
        Placed offset (l.print ++ t) (⟨offset, l⟩ :: toks)

/-- `Occurs raw s before l u after`: in the text `raw` the lexeme `l` stands between `s` and
`u`, which consist of the lexemes `before` and `after`. -/
structure Occurs (raw s : Text) (before : List Lexeme) (l : Lexeme) (u : Text)
    (after : List Lexeme) : Prop where
  eq : raw = s ++ (l.print ++ u)
  before : Lexes s before
  valid : l.Valid
  ends : l.EndsBefore u
  after : Lexes u after

theorem Placed.lexes (h : Placed offset t toks) : Lexes t (lexemesOf toks) := by
  induction h with
  | nil => exact .nil
  | blank hb _ ih => exact .blank hb ih
  | lexeme hvalid hends _ ih => exact .lexeme hvalid hends ih

theorem Lexeme.EndsBefore.of_append (h : l.EndsBefore (s ++ u)) : l.EndsBefore s := by
  have hstart (h : Text.startsNameChar (s ++ u) = false) : Text.startsNameChar s = false := by
    cases s with
    | nil => rfl
    | cons c s => exact h
  cases l with
  | name n => exact hstart h
  | pcdata => exact hstart h
  | _ => trivial

/-- A token is where its lexeme stands. -/
theorem Placed.occurs {before after : List Token} {tok : Token}
    (h : Placed offset t (before ++ tok :: after)) :
    ∃ s u, tok.offset = offset + Text.size s ∧
      Occurs t s (lexemesOf before) tok.lexeme u (lexemesOf after) := by
  generalize htoks : before ++ tok :: after = toks at h
  induction h generalizing before with
  | nil => simp at htoks
  | @blank offset c t toks hb _ ih =>
      obtain ⟨s, u, hoffset, hoccurs⟩ := ih htoks
      exact ⟨c :: s, u, by rw [hoffset, Text.size_cons, Nat.add_assoc],
        { hoccurs with
          eq := by rw [hoccurs.eq, List.cons_append]
          before := .blank hb hoccurs.before }⟩
  | @lexeme offset l t toks hvalid hends h ih =>
      cases before with
      | nil =>
          cases htoks
          exact ⟨[], t, rfl, rfl, .nil, hvalid, hends, h.lexes⟩
      | cons b before =>
          obtain ⟨rfl, hrest⟩ := List.cons.inj htoks
          obtain ⟨s, u, hoffset, hoccurs⟩ := ih hrest
          rw [hoccurs.eq] at hends
          exact ⟨l.print ++ s, u, by rw [hoffset, Text.size_append, Nat.add_assoc],
            { hoccurs with
              eq := by rw [hoccurs.eq, List.append_assoc]
              before := .lexeme hvalid hends.of_append hoccurs.before }⟩

/-- The tokens that are read from a text are placed in it. -/
theorem placed_of_tokensFrom (h : tokensFrom done offset t = .ok toks) :
    ∃ more, toks = done.reverse ++ more ∧ Placed offset t more := by
  fun_induction tokensFrom done offset t with
  | case1 done offset =>
      cases h
      exact ⟨[], by simp, .nil⟩
  | case2 done offset c t hb ih =>
      obtain ⟨more, htoks, hplaced⟩ := ih h
      exact ⟨more, htoks, .blank hb hplaced⟩
  | case3 => cases h
  | case4 done offset c t hb l rest hread ih =>
      obtain ⟨more, htoks, hplaced⟩ := ih h
      obtain ⟨u, hprint, rfl⟩ := Lexeme.print_of_read hread
      obtain ⟨hvalid, hends⟩ := Lexeme.valid_of_read hread
      refine ⟨⟨offset, l⟩ :: more, by simpa using htoks, ?_⟩
      have hlexeme := Placed.lexeme hvalid hends hplaced
      rwa [hprint] at hlexeme

/-! ### Characters that begin no lexeme -/

theorem Lexeme.ne_of_read_error {c : Char} {fault : Fault}
    (h : Lexeme.read c u = .error fault) (hvalid : l.Valid) (hends : l.EndsBefore t) :
    c :: u ≠ l.print ++ t := by
  obtain ⟨d, v, hprint, -⟩ := Lexeme.print_eq_cons hvalid
  intro heq
  rw [hprint, List.cons_append] at heq
  obtain ⟨rfl, hu⟩ := List.cons.inj heq
  rw [hu, Lexeme.read_print hvalid hends hprint] at h
  cases h

/-- Where a text gives no tokens, the text before consists of lexemes, and a character begins
none. -/
theorem exists_of_tokensFrom_error (h : tokensFrom done offset t = .error failure) :
    ∃ s c u ls fault, t = s ++ c :: u ∧ Lexes s ls ∧ isBlank c = false ∧
      Lexeme.read c u = .error fault ∧
      failure = fault.at (offset + Text.size s) := by
  fun_induction tokensFrom done offset t with
  | case1 => cases h
  | case2 done offset c t hb ih =>
      obtain ⟨s, d, u, ls, fault, rfl, hls, hd, hread, rfl⟩ := ih h
      exact ⟨c :: s, d, u, ls, fault, rfl, .blank hb hls, hd, hread,
        by rw [Text.size_cons, Nat.add_assoc]⟩
  | case3 done offset c t hb fault hread =>
      cases h
      exact ⟨[], c, t, [], fault, rfl, .nil, by simpa using hb, hread, rfl⟩
  | case4 done offset c t hb l rest hread ih =>
      obtain ⟨s, d, u, ls, fault, rfl, hls, hd, herror, rfl⟩ := ih h
      obtain ⟨v, hprint, rfl⟩ := Lexeme.print_of_read hread
      obtain ⟨hvalid, hends⟩ := Lexeme.valid_of_read hread
      refine ⟨l.print ++ s, d, u, l :: ls, fault, ?_, .lexeme hvalid hends.of_append hls,
        hd, herror, ?_⟩
      · rw [hprint, List.cons_append, List.cons_append, List.append_assoc]
      · rw [Text.size_append, Nat.add_assoc]

/-! ### The place at fault -/

/-- `Grammar.FailsAt bound raw q`: at the byte `q` it can be seen that the text `raw` is no
content model. -/
inductive Grammar.FailsAt (bound : Nat) (raw : Text) : Nat → Prop
  /-- The character there begins no lexeme. -/
  | char {s u : Text} {c : Char} {ls : List Lexeme} :
      raw = s ++ c :: u → Lexes s ls → isBlank c = false →
        (∀ (l : Lexeme) (t : Text), l.Valid → l.EndsBefore t → c :: u ≠ l.print ++ t) →
        FailsAt bound raw (Text.size s)
  /-- The lexemes before begin a model, but not with the lexeme there. -/
  | lexeme {s u : Text} {l : Lexeme} {before after : List Lexeme} :
      Occurs raw s before l u after → Begins bound before → ¬Begins bound (before ++ [l]) →
        FailsAt bound raw (Text.size s)
  /-- A group begins there, and none is allowed. -/
  | group {s u : Text} {after : List Lexeme} :
      Occurs raw s [] .leftParen u after → bound = 0 → (∀ ls, after ≠ .pcdata :: ls) →
        FailsAt bound raw (Text.size s)
  /-- The last lexeme ends there, and the lexemes begin a model, but are none. -/
  | ending {s u : Text} {l : Lexeme} {before : List Lexeme} :
      Occurs raw s before l u [] → Begins bound (before ++ [l]) →
      (∀ spec, ¬Model bound (before ++ [l]) spec) →
        FailsAt bound raw (Text.size (s ++ l.print))

theorem Grammar.FailsAt.isBoundary {q : Nat} (h : Grammar.FailsAt bound raw q) :
    Text.IsBoundary raw q := by
  cases h with
  | char heq _ _ _ => exact heq ▸ Text.isBoundary_size _ _
  | lexeme hoccurs _ _ => exact hoccurs.eq ▸ Text.isBoundary_size _ _
  | group hoccurs _ _ => exact hoccurs.eq ▸ Text.isBoundary_size _ _
  | ending hoccurs _ _ =>
      rw [hoccurs.eq, ← List.append_assoc]
      exact Text.isBoundary_size _ _

theorem Grammar.not_begins_of_ne (hl : l ≠ .leftParen) : ¬Grammar.Begins bound [l] := by
  rintro ⟨more, spec, -, hspec⟩
  obtain ⟨rest, hls⟩ := hspec.exists_cons
  exact hl (List.cons.inj hls).1

theorem Grammar.begins_nil (bound : Nat) : Grammar.Begins bound [] :=
  ⟨[.leftParen, .pcdata, .rightParen], _, by simp [Lexeme.Valid], .mixed .plain⟩

/-! ### Offsets of failures -/

theorem stopOffset_concat (toks : List Token) (tok : Token) :
    stopOffset (toks ++ [tok]) = tok.offset + 1 := by
  simp [stopOffset]

theorem Occurs.isBoundary_succ_iff (h : Occurs raw s before l u after) :
    Text.IsBoundary raw (Text.size s + 1) ↔ ∃ c v, l.print = c :: v ∧ c.utf8Size = 1 := by
  obtain ⟨c, v, hprint, -⟩ := Lexeme.print_eq_cons h.valid
  have heq : raw = s ++ c :: (v ++ u) := by rw [h.eq, hprint, List.cons_append]
  rw [heq, Text.isBoundary_succ_iff, hprint]
  constructor
  · intro hc
    exact ⟨c, v, rfl, hc⟩
  · rintro ⟨d, w, hw, hd⟩
    rwa [(List.cons.inj hw).1]

/-- `Spec.Points bound raw fault p`: how the offset `p` of a failure with a fault is related to
where the text fails. -/
inductive Spec.Points (bound : Nat) (raw : Text) (fault : Fault) : Nat → Prop
  /-- It is the place where the text fails. -/
  | exact {p : Nat} :
      Grammar.FailsAt bound raw p → Text.IsBoundary raw p → Points bound raw fault p
  /-- It is zero, where there are blanks, and the first lexeme behind them, which is no
  parenthesis, is at fault. -/
  | zero {s u : Text} {l : Lexeme} {after : List Lexeme} :
      Occurs raw s [] l u after → s ≠ [] → l ≠ .leftParen →
      Grammar.FailsAt bound raw (Text.size s) →
        fault = .notAGroup → Points bound raw fault 0
  /-- It is one byte behind the beginning of the last lexeme, and the text fails at the end of
  that, which is longer. -/
  | within {s u : Text} {l : Lexeme} {before : List Lexeme} :
      Occurs raw s before l u [] → 1 < Text.size l.print →
      Grammar.FailsAt bound raw (Text.size (s ++ l.print)) →
        (Text.IsBoundary raw (Text.size s + 1) ↔ ∃ c v, l.print = c :: v ∧ c.utf8Size = 1) →
        Points bound raw fault (Text.size s + 1)

variable {fault : Fault}

theorem Grammar.FailsAt.points (h : Grammar.FailsAt bound raw p) :
    Spec.Points bound raw fault p :=
  .exact h h.isBoundary

theorem Spec.Points.le_size (h : Spec.Points bound raw fault p) : p ≤ Text.size raw := by
  cases h with
  | exact _ hboundary => exact hboundary.le_size
  | zero => exact Nat.zero_le _
  | within hoccurs hlong _ _ =>
      rw [hoccurs.eq, Text.size_append, Text.size_append]
      omega

theorem Spec.points_of_ne {tok : Token} {rest : List Token} (h : Placed 0 raw (tok :: rest))
    (htok : tok.lexeme ≠ .leftParen) : Spec.Points bound raw .notAGroup 0 := by
  obtain ⟨s, u, -, hoccurs⟩ := @Placed.occurs 0 raw [] rest tok h
  have hfails : Grammar.FailsAt bound raw (Text.size s) :=
    .lexeme hoccurs (Grammar.begins_nil bound) (Grammar.not_begins_of_ne htok)
  cases s with
  | nil => exact hfails.points
  | cons c s => exact .zero hoccurs (List.cons_ne_nil c s) htok hfails rfl

/-- What begins a model and is none fails at the end of its last lexeme. -/
theorem Spec.points_of_begins (h : Placed 0 raw toks) (hne : toks ≠ [])
    (hbegins : Grammar.Begins bound (lexemesOf toks))
    (hnone : ∀ spec, ¬Grammar.Model bound (lexemesOf toks) spec) :
    Spec.Points bound raw fault (stopOffset toks) := by
  obtain ⟨init, tok, htoks⟩ := (List.eq_nil_or_concat toks).resolve_left hne
  obtain rfl : toks = init ++ [tok] := htoks.trans List.concat_eq_append
  obtain ⟨s, u, hoffset, hoccurs⟩ := h.occurs
  have hlexemes : lexemesOf (init ++ [tok]) = lexemesOf init ++ [tok.lexeme] := List.map_append
  rw [hlexemes] at hbegins hnone
  have hfails := Grammar.FailsAt.ending hoccurs hbegins hnone
  obtain ⟨c, v, hprint, -⟩ := Lexeme.print_eq_cons hoccurs.valid
  have hpos : 0 < Text.size tok.lexeme.print := by
    rw [hprint, Text.size_cons]
    exact Nat.add_pos_left c.utf8Size_pos _
  rw [stopOffset_concat, hoffset, Nat.zero_add]
  by_cases hlong : 1 < Text.size tok.lexeme.print
  · exact .within hoccurs hlong hfails hoccurs.isBoundary_succ_iff
  · have hone : Text.size tok.lexeme.print = 1 := by omega
    rw [Text.size_append, hone] at hfails
    exact hfails.points

theorem Spec.points_of_tokens (h : tokens raw = .error failure) :
    ∃ p, failure.offset = some p ∧ Spec.Points bound raw failure.fault p := by
  obtain ⟨s, c, u, ls, fault, rfl, hls, hc, hread, rfl⟩ := exists_of_tokensFrom_error h
  refine ⟨0 + Text.size s, rfl, ?_⟩
  rw [Nat.zero_add]
  exact (Grammar.FailsAt.char rfl hls hc fun l t => Lexeme.ne_of_read_error hread).points

/-- A text that gives tokens fails at one of them, or at their end. -/
theorem Spec.points_of_ofTokens (hplaced : Placed 0 raw toks) (hne : toks ≠ [])
    (h : Spec.ofTokens bound toks = .error failure) :
    ∃ p, failure.offset = some p ∧ Spec.Points bound raw failure.fault p := by
  obtain ⟨p, hp, hoffset⟩ := Spec.offset_of_ofTokens h
  refine ⟨p, hp, ?_⟩
  rcases hoffset with ⟨before, t, after, rfl, rfl, hbegins, hnone⟩ | ⟨hbegins, rfl⟩ |
    ⟨o, rest, rfl, hoffset, hbound, hpcdata⟩ | ⟨hgroup, rfl, hfault⟩
  · obtain ⟨s, u, hoffset, hoccurs⟩ := hplaced.occurs
    rw [hoffset, Nat.zero_add]
    exact (Grammar.FailsAt.lexeme hoccurs hbegins hnone).points
  · refine Spec.points_of_begins hplaced hne hbegins fun spec hspec => ?_
    rw [Spec.ofTokens_eq_ok_iff.2 hspec] at h
    cases h
  · obtain ⟨s, u, (hsize : o = 0 + Text.size s), hoccurs⟩ :=
      @Placed.occurs 0 raw [] rest ⟨o, .leftParen⟩ hplaced
    rw [hoffset, hsize, Nat.zero_add]
    refine (Grammar.FailsAt.group hoccurs hbound fun ls hls => ?_).points
    obtain ⟨o', rest', rfl, -⟩ := lexemesOf_eq_cons hls
    cases hpcdata
  · obtain ⟨⟨o, l⟩, rest, rfl⟩ := List.exists_cons_of_ne_nil hne
    rw [hfault]
    refine Spec.points_of_ne hplaced fun htok => hgroup o rest ?_
    rw [show l = .leftParen from htok]

/-- Where an error in a content model points: into the text, and to the place where the text
fails, but for two errors. The error about what does not begin with a parenthesis points to the
beginning of the text, also where blanks are in front. The errors at the end of a text that
ends too early point one byte behind the beginning of the last lexeme, not to its end; this
splits the first character of the lexeme unless that has one byte. Only the error about a text
of blanks points nowhere. -/
theorem Spec.offset_of_parse (h : Spec.parse bound raw = .error failure) :
    failure = ⟨.blank, none⟩ ∧ (∀ c ∈ raw, isBlank c = true) ∨
      ∃ p, failure.offset = some p ∧ p ≤ Text.size raw ∧
        Spec.Points bound raw failure.fault p := by
  unfold Spec.parse at h
  dsimp only at h
  split at h
  · cases h
  · split at h
    · cases h
    · split at h
      · next hblank =>
        cases h
        exact .inl ⟨rfl, Text.trimBy_eq_nil_iff.1 hblank⟩
      · next hblank =>
        obtain ⟨p, hp, hpoints⟩ : ∃ p, failure.offset = some p ∧
            Spec.Points bound raw failure.fault p := by
          rcases bind_eq_error_iff.1 h with h | ⟨toks, htoks, h⟩
          · exact Spec.points_of_tokens h
          · obtain ⟨_, rfl, hplaced⟩ := placed_of_tokensFrom htoks
            refine Spec.points_of_ofTokens hplaced ?_ h
            rintro rfl
            exact hblank (Text.trimBy_eq_nil_iff.2 hplaced.lexes.isBlank_of_mem)
        exact .inr ⟨p, hp, hpoints.le_size, hpoints⟩

/-- An error in a text with blanks and an accent, which points where the text fails. -/
theorem Spec.offset_of_parse_accented :
    Spec.parse 256 " (é, b|c)" = .error (Fault.separatorsDiffer.at 7) ∧
      7 ≤ Text.size " (é, b|c)" ∧
      Spec.Points 256 " (é, b|c)" .separatorsDiffer 7 := by
  have htokens : tokens " (é, b|c)" =
      .ok [⟨1, .leftParen⟩, ⟨2, .name "é"⟩, ⟨4, .comma⟩, ⟨6, .name "b"⟩, ⟨7, .bar⟩,
        ⟨8, .name "c"⟩, ⟨9, .rightParen⟩] := by
    decide +kernel
  have hparse : Spec.parse 256 " (é, b|c)" = .error (Fault.separatorsDiffer.at 7) :=
    Spec.parse_eq_ofTokens htokens
  refine ⟨hparse, ?_⟩
  rcases Spec.offset_of_parse hparse with ⟨hblank, -⟩ | ⟨p, hp, hle, hpoints⟩
  · cases hblank
  · cases hp
    exact ⟨hle, hpoints⟩

/-- The text `(é` ends too early, and the error points into its last character. -/
theorem Spec.parse_splitsAccent :
    Spec.parse 256 "(é" = .error (Fault.unterminatedGroup.at 2) ∧ ¬Text.IsBoundary "(é" 2 := by
  have htokens : tokens "(é" = .ok [⟨0, .leftParen⟩, ⟨1, .name "é"⟩] := by decide +kernel
  have htext : ("(é" : Text) = ['('] ++ 'é' :: [] := by decide +kernel
  refine ⟨Spec.parse_eq_ofTokens htokens, fun h => ?_⟩
  rw [htext] at h
  exact absurd (Text.isBoundary_succ_iff.1 h) (by decide)

end Content
end Doctype
