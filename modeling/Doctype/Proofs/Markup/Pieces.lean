import Mathlib.Data.Nat.Init
import Doctype.Markup.Body
import Doctype.Proofs.Text.Lexer

/-!
The pieces of a body, read from left to right: what stands outside of literals and is no
reference consists of its characters (`pieces_plain_append`), and a literal can be read on its
own (`pieces_literal_append`).
-/

namespace Doctype.Markup

variable {inLiterals : Bool} {quote : Option Char} {done : List Piece} {t : Text}

theorem reference?_eq_some_iff {name rest : Text} :
    reference? t = some (name, rest) ↔ Text.isName name = true ∧ t = name ++ ';' :: rest := by
  constructor
  · intro h
    unfold reference? at h
    split at h
    · next hread =>
      cases h
      obtain ⟨heq, hname, -⟩ := Text.name?_eq_some_iff.1 hread
      exact ⟨hname, heq⟩
    · cases h
  · rintro ⟨hname, rfl⟩
    have hends : Text.startsNameChar (';' :: rest) = false :=
      (by decide : isNameChar ';' = false)
    simp only [reference?, Text.name?_append hname hends]

theorem piecesFrom_reference {name rest : Text} (h : reference? t = some (name, rest))
    (hread : (quote.isNone || inLiterals) = true) :
    piecesFrom inLiterals quote done ('%' :: t) =
        piecesFrom inLiterals quote (.reference name quote.isSome :: done) rest := by
  rw [piecesFrom]
  simp only [hread, decide_true, Bool.and_self, if_true]
  split
  · next h' =>
    rw [h] at h'
    cases h'
    rfl
  · next h' =>
    rw [h] at h'
    cases h'

theorem piecesFrom_percent (h : reference? t = none)
    (hread : (quote.isNone || inLiterals) = true) :
    piecesFrom inLiterals quote done ('%' :: t) =
      piecesFrom inLiterals quote (.char '%' :: done) t := by
  rw [piecesFrom]
  simp only [hread, decide_true, Bool.and_self, if_true]
  split
  · next h' =>
    rw [h] at h'
    cases h'
  · rfl

theorem piecesFrom_char {c : Char} (h : ¬ (c = '%' && (quote.isNone || inLiterals)) = true) :
    piecesFrom inLiterals quote done (c :: t) =
      piecesFrom inLiterals (quoteAfter quote c) (.char c :: done) t := by
  rw [piecesFrom, if_neg h]

/-- A text ends, or it begins with a reference, with a percent sign that could begin one, or
with another character, behind which a quotation mark may be open. -/
@[elab_as_elim]
theorem pieces_induction (inLiterals : Bool) {motive : Option Char → Text → Prop}
    (nil : ∀ quote, motive quote [])
    (reference : ∀ quote t name rest, (quote.isNone || inLiterals) = true →
      reference? t = some (name, rest) → motive quote rest → motive quote ('%' :: t))
    (percent : ∀ quote t, (quote.isNone || inLiterals) = true →
      reference? t = none → motive quote t → motive quote ('%' :: t))
    (char : ∀ quote c t, ¬ (c = '%' && (quote.isNone || inLiterals)) = true →
      motive (quoteAfter quote c) t → motive quote (c :: t))
    (quote : Option Char) (t : Text) : motive quote t := by
  induction quote, ([] : List Piece), t using piecesFrom.induct inLiterals with
  | case1 quote => exact nil quote
  | case2 quote _ c t hc name rest hreference ih =>
      simp only [Bool.and_eq_true, decide_eq_true_eq] at hc
      obtain ⟨rfl, hread⟩ := hc
      exact reference quote t name rest hread hreference ih
  | case3 quote _ c t hc hreference ih =>
      simp only [Bool.and_eq_true, decide_eq_true_eq] at hc
      obtain ⟨rfl, hread⟩ := hc
      exact percent quote t hread hreference ih
  | case4 quote _ c t hc ih => exact char quote c t hc ih

theorem piecesFrom_eq (inLiterals : Bool) (quote : Option Char) (done : List Piece)
    (t : Text) :
    piecesFrom inLiterals quote done t = done.reverse ++ piecesFrom inLiterals quote [] t := by
  induction quote, t using pieces_induction inLiterals generalizing done with
  | nil => simp [piecesFrom]
  | reference quote t name rest hread hreference ih =>
      rw [piecesFrom_reference hreference hread,
        piecesFrom_reference hreference hread, ih, ih [_]]
      simp
  | percent quote t hread hreference ih =>
      rw [piecesFrom_percent hreference hread, piecesFrom_percent hreference hread, ih, ih [_]]
      simp
  | char quote c t hc ih =>
      rw [piecesFrom_char hc, piecesFrom_char hc, ih, ih [_]]
      simp

theorem pieces_reference {name rest : Text} (h : reference? t = some (name, rest))
    (hread : (quote.isNone || inLiterals) = true) : piecesFrom inLiterals quote [] ('%' :: t) =
      .reference name quote.isSome :: piecesFrom inLiterals quote [] rest := by
  rw [piecesFrom_reference h hread, piecesFrom_eq]
  rfl

theorem pieces_percent (h : reference? t = none)
    (hread : (quote.isNone || inLiterals) = true) :
    piecesFrom inLiterals quote [] ('%' :: t) =
      .char '%' :: piecesFrom inLiterals quote [] t := by
  rw [piecesFrom_percent h hread, piecesFrom_eq]
  rfl

theorem pieces_char {c : Char} (h : ¬ (c = '%' && (quote.isNone || inLiterals)) = true) :
    piecesFrom inLiterals quote [] (c :: t) =
      .char c :: piecesFrom inLiterals (quoteAfter quote c) [] t := by
  rw [piecesFrom_char h, piecesFrom_eq]
  rfl

/-- A piece that is no reference is a character of the text. -/
theorem exists_of_mem_pieces {p : Piece} (h : p ∈ piecesFrom inLiterals quote [] t) :
    (∃ c ∈ t, p = .char c) ∨ ∃ name isQuoted, p = .reference name isQuoted := by
  induction quote, t using pieces_induction inLiterals with
  | nil => simp [piecesFrom] at h
  | reference quote t name rest hread hreference ih =>
      rw [pieces_reference hreference hread, List.mem_cons] at h
      rcases h with rfl | hp
      · exact .inr ⟨_, _, rfl⟩
      · refine (ih hp).imp_left ?_
        rintro ⟨d, hd, rfl⟩
        exact ⟨d, by simp [reference?_eq_some hreference, hd], rfl⟩
  | percent quote t hread hreference ih =>
      rw [pieces_percent hreference hread, List.mem_cons] at h
      rcases h with rfl | hp
      · exact .inl ⟨'%', by simp, rfl⟩
      · refine (ih hp).imp_left ?_
        rintro ⟨d, hd, hp⟩
        exact ⟨d, List.mem_cons_of_mem _ hd, hp⟩
  | char quote c t hc ih =>
      rw [pieces_char hc, List.mem_cons] at h
      rcases h with rfl | hp
      · exact .inl ⟨c, by simp, rfl⟩
      · refine (ih hp).imp_left ?_
        rintro ⟨d, hd, hp⟩
        exact ⟨d, List.mem_cons_of_mem _ hd, hp⟩

/-- While a quotation mark is open that the text does not hold, references are between
quotation marks. -/
theorem isQuoted_of_mem_piecesFrom {q : Char} {name : Text} {isQuoted : Bool}
    (hquote : quote = some q) (ht : q ∉ t)
    (h : .reference name isQuoted ∈ piecesFrom true quote [] t) : isQuoted = true := by
  induction quote, t using pieces_induction true with
  | nil => simp [piecesFrom] at h
  | reference quote t n rest hread hreference ih =>
      rw [pieces_reference hreference hread, List.mem_cons] at h
      rcases h with hfirst | hrest
      · cases hfirst
        rw [hquote]
        rfl
      · refine ih hquote (fun hmem => ht ?_) hrest
        simp [reference?_eq_some hreference, hmem]
  | percent quote t hread hreference ih =>
      rw [pieces_percent hreference hread, List.mem_cons] at h
      rcases h with hfirst | hrest
      · cases hfirst
      · exact ih hquote (fun hmem => ht (List.mem_cons_of_mem _ hmem)) hrest
  | char quote c t hc ih =>
      rw [pieces_char hc, List.mem_cons] at h
      rcases h with hfirst | hrest
      · cases hfirst
      · obtain ⟨hne, hnot⟩ := not_or.1 (mt List.mem_cons.2 ht)
        exact ih (by simp [quoteAfter, hquote, Ne.symm hne]) hnot hrest

theorem pieces_eq_map_char (h : '%' ∉ t) : piecesFrom inLiterals quote [] t = t.map .char := by
  induction t generalizing quote with
  | nil => simp [piecesFrom]
  | cons c t ih =>
      obtain ⟨hc, ht⟩ := not_or.1 (mt List.mem_cons.2 h)
      rw [pieces_char (by simp [Ne.symm hc]), ih ht]
      rfl

/-- Text without quotation marks and percent signs outside of literals consists of its
characters. -/
theorem pieces_plain_append {s : Text} (h : ∀ c ∈ s, c ≠ '%' ∧ Lexer.isQuote c = false)
    (t : Text) :
    piecesFrom inLiterals none [] (s ++ t) =
      s.map .char ++ piecesFrom inLiterals none [] t := by
  induction s with
  | nil => rfl
  | cons c s ih =>
      obtain ⟨⟨hc, hquote⟩, hs⟩ := List.forall_mem_cons.1 h
      have hafter : quoteAfter none c = none := by simp [quoteAfter, hquote]
      rw [List.cons_append, pieces_char (by simp [hc]), hafter, ih hs]
      rfl

theorem isNameChar_eq_false_of_isQuote {q : Char} (hq : Lexer.isQuote q = true) :
    isNameChar q = false := by
  simp only [Lexer.isQuote, Bool.or_eq_true, decide_eq_true_eq] at hq
  rcases hq with rfl | rfl <;> decide

theorem reference?_append {q : Char} (hq : Lexer.isQuote q = true) (s t : Text) :
    reference? (s ++ q :: t) = (reference? s).map fun (name, rest) =>
      (name, rest ++ q :: t) := by
  have hname := isNameChar_eq_false_of_isQuote hq
  have hstart : isNameStart q = false := by
    rw [isNameChar, Bool.or_eq_false_iff] at hname
    exact hname.1
  have hsemicolon : q ≠ ';' := by
    rintro rfl
    cases hq
  cases s with
  | nil => simp [reference?, Text.name?, hstart]
  | cons c s =>
      obtain ⟨htake, hdrop⟩ := Text.span_append_cons hname s t
      simp only [reference?, Text.name?, List.cons_append, htake, hdrop]
      by_cases hc : isNameStart c = true
      · simp only [hc, if_true]
        rcases s.dropWhile isNameChar with _ | ⟨d, rest⟩
        · simp [hsemicolon]
        · by_cases hd : d = ';' <;> simp [hd]
      · simp [hc]

/-- The pieces of a literal end at its quotation mark. -/
theorem pieces_literal_append {q : Char} (hq : Lexer.isQuote q = true) {s : Text} (h : q ∉ s)
    (t : Text) :
    piecesFrom true (some q) [] (s ++ q :: t) =
      piecesFrom true (some q) [] s ++ .char q :: piecesFrom true none [] t := by
  induction hn : s.length using Nat.strong_induction_on generalizing s with
  | _ n ih =>
  cases s with
  | nil =>
      have hpercent : q ≠ '%' := by
        rintro rfl
        cases hq
      rw [List.nil_append, pieces_char (by simp [hpercent])]
      simp [quoteAfter, piecesFrom]
  | cons c s =>
      obtain ⟨hc, hs⟩ := not_or.1 (mt List.mem_cons.2 h)
      by_cases hpercent : c = '%'
      · subst hpercent
        rw [List.cons_append]
        cases hreference : reference? s with
        | none =>
            have happend := reference?_append hq s t
            rw [hreference, Option.map_none] at happend
            rw [pieces_percent happend rfl, pieces_percent hreference rfl,
              ih s.length (by simp [← hn]) hs rfl, List.cons_append]
        | some p =>
            obtain ⟨name, rest⟩ := p
            have happend := reference?_append hq s t
            rw [hreference, Option.map_some] at happend
            have hsplit := reference?_eq_some hreference
            have hrest : q ∉ rest := fun hmem => hs (by simp [hsplit, hmem])
            have hlength : rest.length < n := by
              rw [← hn, hsplit]
              simp only [List.length_cons, List.length_append]
              omega
            rw [pieces_reference happend rfl, pieces_reference hreference rfl,
              ih rest.length hlength hrest rfl, List.cons_append]
      · have hafter : quoteAfter (some q) c = some q := by
          simp [quoteAfter, Ne.symm hc]
        rw [List.cons_append, pieces_char (by simp [hpercent]),
          pieces_char (by simp [hpercent]), hafter,
          ih s.length (by simp [← hn]) hs rfl, List.cons_append]

end Doctype.Markup
