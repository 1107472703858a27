import Doctype.Proofs.Content.Stuck
import Doctype.Proofs.Text.Lexer

/-!
Blanks around a content model. The readers carry the offsets of tokens along and never look at
them (`readMember_move`, `readMixed_move`), blanks in front of a text move its tokens
(`tokensFrom_blanks`, `tokensFrom_move`), and blanks behind it give none
(`tokensFrom_append_blanks`). So a text between blanks is read like the text alone: as the same
specification, or with the same fault (`Spec.faultOnly_parse_blanks`).
-/

namespace Doctype

namespace Text

variable {a b t : Text}

theorem trimBy_blanks (ha : ∀ c ∈ a, isBlank c = true) (hb : ∀ c ∈ b, isBlank c = true) :
    trimBy isBlank (a ++ t ++ b) = trimBy isBlank t := by
  unfold trimBy
  rw [List.append_assoc, List.dropWhile_append_of_pos ha, List.dropWhile_append]
  split
  · next hall =>
    -- nothing is left of the text, nor of the blanks behind it
    have hnil : t.dropWhile isBlank = [] := List.isEmpty_iff.1 hall
    rw [hnil, List.dropWhile_eq_nil_iff.2 hb]
  · have hreverse : ∀ c ∈ b.reverse, isBlank c = true :=
      fun c hc => hb c (List.mem_reverse.1 hc)
    rw [List.reverse_append, List.dropWhile_append_of_pos hreverse]

/-- A mark without blanks does not go beyond a text that blanks follow. -/
theorem dropPrefix?_append_blanks {mark : Text} (hmark : ∀ c ∈ mark, isBlank c = false)
    (hb : ∀ c ∈ b, isBlank c = true) :
    dropPrefix? mark (t ++ b) = (dropPrefix? mark t).map (· ++ b) := by
  cases hdrop : dropPrefix? mark t with
  | some rest =>
      rw [dropPrefix?_eq_some hdrop, List.append_assoc, dropPrefix?_append]
      rfl
  | none =>
      cases hlong : dropPrefix? mark (t ++ b) with
      | none => rfl
      | some rest =>
          have hsplit : t ++ b = mark ++ rest := dropPrefix?_eq_some hlong
          rcases List.append_eq_append_iff.1 hsplit with ⟨u, hu, hrest⟩ | ⟨u, hu, -⟩
          · -- what the mark has beyond the text would be blanks
            cases u with
            | nil =>
                obtain rfl : mark = t := by simpa using hu
                simp [dropPrefix?] at hdrop
            | cons c u =>
                have hblank : isBlank c = true := hb c (by simp [hrest])
                rw [hmark c (by simp [hu])] at hblank
                cases hblank
          · rw [hu, dropPrefix?_append] at hdrop
            cases hdrop

theorem startsNameChar_append_blanks (hb : ∀ c ∈ b, isBlank c = true) :
    startsNameChar (t ++ b) = startsNameChar t := by
  cases t with
  | nil =>
      have hend := startsNameChar_blanks (r := []) hb rfl
      rwa [List.append_nil] at hend
  | cons c t => rfl

theorem span_append_blanks (hb : ∀ c ∈ b, isBlank c = true) :
    (t ++ b).takeWhile isNameChar = t.takeWhile isNameChar ∧
      (t ++ b).dropWhile isNameChar = t.dropWhile isNameChar ++ b := by
  cases b with
  | nil => simp
  | cons c b => exact span_append_cons (isNameChar_eq_false_of_isBlank (hb c (by simp))) t b

end Text

namespace Content

/-! ### Moved places -/

def Token.move (f : Nat → Nat) (t : Token) : Token :=
  { t with offset := f t.offset }

def Failure.move (f : Nat → Nat) (failure : Failure) : Failure :=
  { failure with offset := failure.offset.map f }

def moved (f : Nat → Nat) :
    Except Failure (Particle × List Token) → Except Failure (Particle × List Token)
  | .ok (p, rest) => .ok (p, rest.map (.move f))
  | .error failure => .error (failure.move f)

variable {bound stop : Nat} {f : Nat → Nat}

theorem startsMark_move (toks : List Token) :
    startsMark (toks.map (.move f)) = startsMark toks := by
  cases toks with
  | nil => rfl
  | cons t toks =>
      obtain ⟨o, l⟩ := t
      cases l <;> rfl

mutual

/-- Where a member must stand, the reader does not look at the places of the tokens. -/
theorem readMember_move (outer : List OpenGroup) (g : OpenGroup) (toks : List Token) :
    readMember bound (f stop) outer g (toks.map (.move f)) =
      moved f (readMember bound stop outer g toks) := by
  cases toks with
  | nil => rfl
  | cons t rest =>
      obtain ⟨o, l⟩ := t
      cases l with
      | name n =>
          cases hmark : startsMark rest with
          | true =>
              obtain ⟨o', m, rest', rfl⟩ := startsMark_eq_true hmark
              exact readSeparator_move outer (g.add (.name n (some m))) rest'
          | false =>
              have hname (o : Nat) : lexemesOf [⟨o, .name n⟩] = .name n :: markLexemes none :=
                rfl
              have hmoved := startsMark_move (f := f) rest
              calc
                _ = readSeparator bound (f stop) outer (g.add (.name n none))
                  (rest.map (.move f)) :=
                  readMember_name (hname (f o)) (hmoved.trans hmark)
                _ = moved f (readSeparator bound stop outer (g.add (.name n none)) rest) :=
                  readSeparator_move outer _ rest
                _ = _ := congrArg (moved f) (readMember_name (hname o) hmark).symm
      | leftParen =>
          rw [List.map_cons, Token.move, readMember, readMember]
          split
          · exact readMember_move (g :: outer) .start rest
          · rfl
      | pcdata | rightParen | bar | comma | mark => rfl
termination_by toks.length

/-- Nor does it behind a member. -/
theorem readSeparator_move (outer : List OpenGroup) (g : OpenGroup) (toks : List Token) :
    readSeparator bound (f stop) outer g (toks.map (.move f)) =
      moved f (readSeparator bound stop outer g toks) := by
  cases toks with
  | nil => rfl
  | cons t rest =>
      obtain ⟨o, l⟩ := t
      cases l with
      | rightParen =>
          cases hmark : startsMark rest with
          | true =>
              obtain ⟨o', m, rest', rfl⟩ := startsMark_eq_true hmark
              cases outer with
              | nil => rfl
              | cons parent outer =>
                  exact readSeparator_move outer (parent.add (g.close (some m))) rest'
          | false =>
              have hclose (o : Nat) : lexemesOf [⟨o, .rightParen⟩] =
                .rightParen :: markLexemes none := rfl
              have hmoved := startsMark_move (f := f) rest
              calc
                _ = resume bound (f stop) (g.close none) (rest.map (.move f)) outer :=
                  readSeparator_rightParen (hclose (f o)) (hmoved.trans hmark)
                _ = moved f (resume bound stop (g.close none) rest outer) := by
                  cases outer with
                  | nil => rfl
                  | cons parent outer => exact readSeparator_move outer _ rest
                _ = _ := congrArg (moved f) (readSeparator_rightParen (hclose o) hmark).symm
      | comma | bar =>
          rw [List.map_cons, Token.move, readSeparator, readSeparator]
          split
          · exact readMember_move outer _ rest
          · rfl
      | leftParen | name | pcdata | mark => rfl
termination_by toks.length

end

/-! ### Mixed content -/

theorem closeMixed_move (names : List Text) (toks : List Token) :
    closeMixed (f stop) names (toks.map (.move f)) = moved f (closeMixed stop names toks) := by
  cases toks with
  | nil => cases names <;> rfl
  | cons t rest =>
      obtain ⟨o, l⟩ := t
      cases l with
      | mark m => cases m <;> rfl
      | _ => cases names <;> rfl

theorem readMixed_move (names : List Text) (toks : List Token) :
    readMixed (f stop) names (toks.map (.move f)) = moved f (readMixed stop names toks) := by
  cases toks with
  | nil => rfl
  | cons t rest =>
      obtain ⟨o, l⟩ := t
      cases l with
      | rightParen => exact closeMixed_move names rest
      | bar =>
          cases rest with
          | nil => rfl
          | cons t rest =>
              obtain ⟨o', l⟩ := t
              cases l with
              | name n =>
                  cases hmark : startsMark rest with
                  | true =>
                      obtain ⟨o'', m, rest', rfl⟩ := startsMark_eq_true hmark
                      rfl
                  | false =>
                      calc
                        _ = readMixed (f stop) (n :: names) (rest.map (.move f)) :=
                          readMixed_name ((startsMark_move rest).trans hmark)
                        _ = moved f (readMixed stop (n :: names) rest) :=
                          readMixed_move (n :: names) rest
                        _ = _ := congrArg (moved f) (readMixed_name hmark).symm
              | leftParen | rightParen | bar | comma | mark | pcdata => rfl
      | comma | leftParen | name | pcdata | mark => rfl
termination_by toks.length

/-! ### Faults -/

def faultOnly {α : Type} (x : Except Failure α) : Except Fault α :=
  x.mapError Failure.fault

def finish (make : Particle → Spec) (r : Particle × List Token) : Except Failure Spec :=
  expectEnd r.2 >>= fun _ => .ok (make r.1)

theorem faultOnly_finish_moved (make : Particle → Spec)
    (x : Except Failure (Particle × List Token)) :
    faultOnly (moved f x >>= finish make) = faultOnly (x >>= finish make) := by
  cases x with
  | error failure => rfl
  | ok r =>
      obtain ⟨p, rest⟩ := r
      cases rest <;> rfl

theorem stopOffset_move (hf : ∀ n, f (n + 1) = f n + 1) (t : Token) (toks : List Token) :
    stopOffset ((t :: toks).map (.move f)) = f (stopOffset (t :: toks)) := by
  unfold stopOffset
  rw [List.getLast?_map, List.getLast?_cons]
  exact (hf _).symm

theorem Spec.ofTokens_mixed {o o' : Nat} {rest : List Token} :
    Spec.ofTokens bound (⟨o, .leftParen⟩ :: ⟨o', .pcdata⟩ :: rest) =
      readMixed (stopOffset (⟨o, .leftParen⟩ :: ⟨o', .pcdata⟩ :: rest)) [] rest >>=
        finish .mixed :=
  rfl

theorem Spec.ofTokens_children {o : Nat} {rest : List Token} (h : startsPcdata rest = false) :
    Spec.ofTokens bound (⟨o, .leftParen⟩ :: rest) =
      if 1 ≤ bound then readMember bound (stopOffset (⟨o, .leftParen⟩ :: rest)) [] .start
        rest >>= finish .children
      else .error ((Fault.tooDeep bound).at o) := by
  cases rest with
  | nil => rfl
  | cons t rest =>
      obtain ⟨o', l⟩ := t
      cases l with
      | pcdata => cases h
      | _ => rfl

theorem startsPcdata_move (toks : List Token) :
    startsPcdata (toks.map (.move f)) = startsPcdata toks := by
  cases toks with
  | nil => rfl
  | cons t toks =>
      obtain ⟨o, l⟩ := t
      cases l <;> rfl

/-- Wherever the tokens are, they make the same specification or have the same fault. -/
theorem Spec.faultOnly_ofTokens_move (hf : ∀ n, f (n + 1) = f n + 1) (toks : List Token) :
    faultOnly (Spec.ofTokens bound (toks.map (.move f))) =
      faultOnly (Spec.ofTokens bound toks) := by
  rcases model_cases toks with ⟨o, o', rest, rfl⟩ | ⟨o, rest, rfl, hpcdata⟩ | hne
  · have hstop := stopOffset_move hf ⟨o, .leftParen⟩ (⟨o', .pcdata⟩ :: rest)
    simp only [List.map_cons, Token.move] at hstop ⊢
    rw [Spec.ofTokens_mixed, Spec.ofTokens_mixed, hstop, readMixed_move,
      faultOnly_finish_moved]
  · have hstop := stopOffset_move hf ⟨o, .leftParen⟩ rest
    simp only [List.map_cons, Token.move] at hstop ⊢
    rw [Spec.ofTokens_children hpcdata,
      Spec.ofTokens_children ((startsPcdata_move rest).trans hpcdata), hstop]
    split
    · rw [readMember_move, faultOnly_finish_moved]
    · rfl
  · cases toks with
    | nil => rfl
    | cons t rest =>
        obtain ⟨o, l⟩ := t
        cases l with
        | leftParen => exact absurd rfl (hne o rest)
        | _ => rfl

/-! ### Blanks behind and in front -/

variable {a b t : Text}

/-- A lexeme is read alike whether or not there are blanks behind the text. -/
theorem Lexeme.read_append_blanks (hb : ∀ c ∈ b, isBlank c = true) (c : Char) :
    Lexeme.read c (t ++ b) = (Lexeme.read c t).map fun r => (r.1, r.2 ++ b) := by
  have hmark : ∀ c ∈ "PCDATA".toList, isBlank c = false := by simp [isBlank]
  obtain ⟨htake, hdrop⟩ := Text.span_append_blanks (t := t) hb
  unfold Lexeme.read
  cases Lexeme.ofChar? c with
  | some l => rfl
  | none =>
      dsimp only
      split
      · rw [Text.dropPrefix?_append_blanks hmark hb]
        cases Text.dropPrefix? "PCDATA".toList t with
        | none => rfl
        | some rest =>
            simp only [Option.map_some, Text.startsNameChar_append_blanks hb]
            cases Text.startsNameChar rest <;> rfl
      · rw [htake, hdrop]
        cases isNameStart c <;> rfl

section Tokens

variable (done : List Token) (offset : Nat)

theorem tokensFrom_of_error {c : Char} {fault : Fault} (hc : isBlank c = false)
    (hread : Lexeme.read c t = .error fault) :
    tokensFrom done offset (c :: t) = .error (fault.at offset) := by
  rw [tokensFrom, if_neg (by simp [hc])]
  split
  · next herror =>
    rw [hread] at herror
    cases herror
    rfl
  · next hok =>
    rw [hread] at hok
    cases hok

/-- Blanks in front of a text move the place where it begins. -/
theorem tokensFrom_blanks (ha : ∀ c ∈ a, isBlank c = true) :
    tokensFrom done offset (a ++ t) = tokensFrom done (offset + Text.size a) t := by
  induction a generalizing offset with
  | nil => rfl
  | cons c a ih =>
      rw [List.cons_append, tokensFrom_blank (ha c (by simp)),
        ih _ fun d hd => ha d (by simp [hd]), Text.size_cons, Nat.add_assoc]

/-- Blanks behind a text give no tokens. -/
theorem tokensFrom_append_blanks (hb : ∀ c ∈ b, isBlank c = true) :
    tokensFrom done offset (t ++ b) = tokensFrom done offset t := by
  fun_induction tokensFrom done offset t with
  | case1 done offset =>
      have hblanks := tokensFrom_blanks done offset (t := []) hb
      rw [List.append_nil] at hblanks
      rw [List.nil_append, hblanks, tokensFrom]
  | case2 done offset c t hc ih => rw [List.cons_append, tokensFrom_blank hc, ih]
  | case3 done offset c t hc fault hread =>
      have hlonger : Lexeme.read c (t ++ b) = .error fault := by
        rw [Lexeme.read_append_blanks hb, hread]; rfl
      exact tokensFrom_of_error done offset (by simpa using hc) hlonger
  | case4 done offset c t hc l rest hread ih =>
      have hlonger : Lexeme.read c (t ++ b) = .ok (l, rest ++ b) := by
        rw [Lexeme.read_append_blanks hb, hread]; rfl
      rw [List.cons_append, tokensFrom_of_read (by simpa using hc) hlonger, ih]

/-- Where a text begins moves its tokens and its failures. -/
theorem tokensFrom_move (k : Nat) :
    tokensFrom (done.map (.move (· + k))) (offset + k) t =
      ((tokensFrom done offset t).map (List.map (.move (· + k)))).mapError
        (.move (· + k)) := by
  fun_induction tokensFrom done offset t with
  | case1 done offset => simp [tokensFrom, Except.map, Except.mapError]
  | case2 done offset c t hc ih =>
      rw [tokensFrom_blank hc, ← ih, Nat.add_right_comm]
  | case3 done offset c t hc fault hread =>
      rw [tokensFrom_of_error _ _ (by simpa using hc) hread]
      rfl
  | case4 done offset c t hc l rest hread ih =>
      rw [tokensFrom_of_read (by simpa using hc) hread, ← ih, Nat.add_right_comm]
      rfl

end Tokens

/-- A text between blanks is read like the text alone: as the same specification, or with the
same fault. -/
theorem Spec.faultOnly_parse_blanks (ha : ∀ c ∈ a, isBlank c = true)
    (hb : ∀ c ∈ b, isBlank c = true) :
    faultOnly (Spec.parse bound (a ++ t ++ b)) = faultOnly (Spec.parse bound t) := by
  have htrim := Text.trimBy_blanks (t := t) ha hb
  have htokens : tokens (a ++ t ++ b) =
      ((tokens t).map (List.map (.move (· + Text.size a)))).mapError
        (.move (· + Text.size a)) := by
    have hmoved := tokensFrom_move (t := t) [] 0 (Text.size a)
    rw [List.map_nil] at hmoved
    rw [tokens, tokensFrom_append_blanks [] 0 hb, tokensFrom_blanks [] 0 ha]
    exact hmoved
  unfold Spec.parse
  dsimp only
  rw [htrim, htokens]
  split
  · rfl
  · split
    · rfl
    · split
      · rfl
      · cases tokens t with
        | error failure => rfl
        | ok toks =>
            exact Spec.faultOnly_ofTokens_move
              (fun n => Nat.add_right_comm n 1 (Text.size a)) toks

end Content
end Doctype
