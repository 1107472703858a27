import Doctype.Proofs.Text.Blank
import Doctype.Proofs.Text.Name
import Doctype.Reference

/-!
Character references, read from left to right. A body up to its semicolon is expanded to what
it is decoded to, unless a sign stands in front of its digits: decoding takes a plus sign
there, and the expansion of texts does not (`char?_append`). Everything else in a text is left
as it is, and what was expanded is not read again (`expandChars_of_char?`,
`expandChars_ampersand`, `expandChars_cons`).
-/

namespace Doctype.Reference

variable {t rest : Text} {c : Char}

def isSigned : Text → Bool
  | '#' :: 'x' :: '+' :: _ => true
  | '#' :: '+' :: _ => true
  | _ => false

/-- `Denotes t c`: somewhere in the text stands a reference, up to the first semicolon behind
its ampersand, whose body is decoded to the character. -/
def Denotes (t : Text) (c : Char) : Prop :=
  ∃ before body after, t = before ++ '&' :: (body ++ ';' :: after) ∧ ';' ∉ body ∧
    decode body = some c

/-! ### One reference -/

theorem isDigit_semicolon (base : Nat) : Text.isDigit base ';' = false := by
  simp [Text.isDigit, Text.digit?]

theorem isDigit_plus (base : Nat) : Text.isDigit base '+' = false := by
  simp [Text.isDigit, Text.digit?]

theorem digits?_plus (base : Nat) (d : Text) : Text.digits? base ('+' :: d) = none := by
  simp [Text.digits?, isDigit_plus]

theorem number?_of_head? {base : Nat} {d : Text} (hd : d.head? ≠ some '+') :
    Text.number? base d = Text.digits? base d := by
  unfold Text.number?
  split
  · exact absurd rfl hd
  · rfl

theorem digitsThenEnd?_append {base : Nat} {d : Text} (hd : ';' ∉ d) (rest : Text) :
    digitsThenEnd? base (d ++ ';' :: rest) =
      ((Text.digits? base d).bind Text.charOfCode?).map (·, rest) := by
  unfold digitsThenEnd?
  obtain ⟨-, htake, hdrop⟩ | ⟨hall, e, u, hdrop, hne⟩ :=
    Text.span_cases (isDigit_semicolon base) hd rest
  · rw [htake, hdrop]
    cases (Text.digits? base d).bind Text.charOfCode? <;> rfl
  · have hnone : Text.digits? base d = none := by simp [Text.digits?, hall]
    rw [hdrop, hnone]
    split
    · next heq => exact absurd (List.cons.inj heq).1 hne
    · rfl

/-- Behind the mark of its base, a number is read in the same way by both, unless it has a
sign. -/
theorem digitsThenEnd?_number {base : Nat} {d : Text} (hd : ';' ∉ d) (rest : Text) :
    digitsThenEnd? base (d ++ ';' :: rest) =
      if d.head? = some '+' then none
        else ((Text.number? base d).bind Text.charOfCode?).map (·, rest) := by
  rw [digitsThenEnd?_append hd]
  by_cases hsign : d.head? = some '+'
  · obtain ⟨e, rfl⟩ := List.head?_eq_some_iff.1 hsign
    rw [if_pos hsign, digits?_plus]
    rfl
  · rw [if_neg hsign, number?_of_head? hsign]

/-- A body up to its semicolon is expanded to what it is decoded to, if there is no sign in
it. -/
theorem char?_append {body : Text} (hbody : ';' ∉ body) (rest : Text) :
    char? (body ++ ';' :: rest) = if isSigned body then none
      else (decode body).map (·, rest) := by
  fun_cases decode body with
  | case1 d =>
      have hd : ';' ∉ d := fun h => hbody (by simp [h])
      have hsign : isSigned ('#' :: 'x' :: d) = decide (d.head? = some '+') := by
        cases d with
        | nil => rfl
        | cons e d => by_cases he : e = '+' <;> simp [isSigned, he]
      simp only [hsign, decide_eq_true_eq]
      exact digitsThenEnd?_number hd rest
  | case2 d hx =>
      have hd : ';' ∉ d := fun h => hbody (by simp [h])
      have hsign : isSigned ('#' :: d) = decide (d.head? = some '+') := by
        cases d with
        | nil => rfl
        | cons e d => by_cases he : e = '+' <;> simp_all [isSigned]
      have hchar : char? ('#' :: d ++ ';' :: rest) = digitsThenEnd? 10 (d ++ ';' :: rest) := by
        cases d with
        | nil => rfl
        | cons e d =>
            have he : e ≠ 'x' := by
              rintro rfl
              exact hx d rfl
            simp [char?, he]
      simp only [hsign, decide_eq_true_eq, hchar]
      exact digitsThenEnd?_number hd rest
  | case3 _ _ hnumber =>
      have hsign : isSigned body = false := by
        unfold isSigned
        split
        · exact absurd rfl (hnumber _)
        · exact absurd rfl (hnumber _)
        · rfl
      have hchar : char? (body ++ ';' :: rest) = none := by
        cases body with
        | nil => rfl
        | cons e d =>
            have he : e ≠ '#' := by
              rintro rfl
              exact hnumber d rfl
            simp [char?, he]
      rw [hsign, hchar]
      rfl

theorem exists_of_digitsThenEnd?_eq_some {base : Nat}
    (h : digitsThenEnd? base t = some (c, rest)) : ∃ d, t = d ++ ';' :: rest ∧ ';' ∉ d := by
  unfold digitsThenEnd? at h
  split at h
  · next u hu =>
    refine ⟨t.takeWhile (Text.isDigit base), ?_, fun hmem => ?_⟩
    · split at h
      · cases h
        rw [← hu, List.takeWhile_append_dropWhile]
      · cases h
    · have hdigit := List.mem_takeWhile_imp hmem
      rw [isDigit_semicolon] at hdigit
      cases hdigit
  · cases h

theorem exists_of_char?_eq_some (h : char? t = some (c, rest)) :
    ∃ body, t = body ++ ';' :: rest ∧ ';' ∉ body ∧ isSigned body = false ∧
      decode body = some c := by
  have hbody : ∃ body, t = body ++ ';' :: rest ∧ ';' ∉ body := by
    unfold char? at h
    split at h
    · obtain ⟨d, rfl, hd⟩ := exists_of_digitsThenEnd?_eq_some h
      exact ⟨'#' :: 'x' :: d, rfl, by simpa using hd⟩
    · obtain ⟨d, rfl, hd⟩ := exists_of_digitsThenEnd?_eq_some h
      exact ⟨'#' :: d, rfl, by simpa using hd⟩
    · cases h
  obtain ⟨body, rfl, hsemicolon⟩ := hbody
  rw [char?_append hsemicolon] at h
  split at h
  · cases h
  · next hsign =>
    obtain ⟨d, hd, heq⟩ := Option.map_eq_some_iff.1 h
    cases heq
    exact ⟨body, rfl, hsemicolon, by simpa using hsign, hd⟩

/-! ### Texts -/

theorem expandFrom_of_char? {done : Text} (h : char? t = some (c, rest)) :
    expandFrom done ('&' :: t) = expandFrom (c :: done) rest := by
  rw [expandFrom, if_pos rfl]
  split
  · next h' =>
    rw [h] at h'
    cases h'
    rfl
  · next h' =>
    rw [h] at h'
    cases h'

theorem expandFrom_ampersand {done : Text} (h : char? t = none) :
    expandFrom done ('&' :: t) = expandFrom ('&' :: done) t := by
  rw [expandFrom, if_pos rfl]
  split
  · next h' =>
    rw [h] at h'
    cases h'
  · rfl

theorem expandFrom_cons {done : Text} (hc : c ≠ '&') :
    expandFrom done (c :: t) = expandFrom (c :: done) t := by
  rw [expandFrom, if_neg hc]

@[elab_as_elim]
theorem chars_induction {motive : Text → Prop} (nil : motive [])
    (reference : ∀ t c rest, char? t = some (c, rest) → motive rest → motive ('&' :: t))
    (ampersand : ∀ t, char? t = none → motive t → motive ('&' :: t))
    (cons : ∀ c t, c ≠ '&' → motive t → motive (c :: t)) (t : Text) : motive t :=
  expandFrom.induct (fun _ t => motive t) (fun _ => nil) (fun _ => reference)
    (fun _ => ampersand) (fun _ => cons) [] t

theorem expandFrom_eq (done t : Text) : expandFrom done t = done.reverse ++ expandChars t := by
  rw [expandChars]
  induction t using chars_induction generalizing done with
  | nil => simp [expandFrom]
  | reference t c rest h ih =>
      rw [expandFrom_of_char? h, expandFrom_of_char? h, ih, ih [_]]
      simp
  | ampersand t h ih =>
      rw [expandFrom_ampersand h, expandFrom_ampersand h, ih, ih [_]]
      simp
  | cons c t hc ih =>
      rw [expandFrom_cons hc, expandFrom_cons hc, ih, ih [_]]
      simp

@[simp] theorem expandChars_nil : expandChars [] = [] := by
  simp [expandChars, expandFrom]

theorem expandChars_of_char? (h : char? t = some (c, rest)) :
    expandChars ('&' :: t) = c :: expandChars rest := by
  rw [expandChars, expandFrom_of_char? h, expandFrom_eq]
  rfl

theorem expandChars_ampersand (h : char? t = none) :
    expandChars ('&' :: t) = '&' :: expandChars t := by
  rw [expandChars, expandFrom_ampersand h, expandFrom_eq]
  rfl

theorem expandChars_cons (hc : c ≠ '&') : expandChars (c :: t) = c :: expandChars t := by
  rw [expandChars, expandFrom_cons hc, expandFrom_eq]
  rfl

theorem expandChars_of_notMem (ht : '&' ∉ t) : expandChars t = t := by
  induction t with
  | nil => exact expandChars_nil
  | cons c t ih =>
      obtain ⟨hc, ht⟩ := not_or.1 (mt List.mem_cons.2 ht)
      rw [expandChars_cons (Ne.symm hc), ih ht]

/-! ### What expanded texts consist of -/

theorem Denotes.of_suffix {u : Text} (h : Denotes t c) (hsuffix : t <:+ u) : Denotes u c := by
  obtain ⟨front, rfl⟩ := hsuffix
  obtain ⟨before, body, after, rfl, hbody, hdecode⟩ := h
  exact ⟨front ++ before, body, after, by simp, hbody, hdecode⟩

theorem denotes_of_char? (h : char? t = some (c, rest)) :
    Denotes ('&' :: t) c ∧ rest <:+ t := by
  obtain ⟨body, rfl, hbody, -, hdecode⟩ := exists_of_char?_eq_some h
  exact ⟨⟨[], body, rest, rfl, hbody, hdecode⟩, ⟨body ++ [';'], by simp⟩⟩

/-- A character of an expanded text stands in the text, or a reference in the text denotes
it. -/
theorem mem_or_denotes_of_mem_expandChars {d : Char} (hd : d ∈ expandChars t) :
    d ∈ t ∨ Denotes t d := by
  induction t using chars_induction with
  | nil => simp at hd
  | reference t c rest h ih =>
      obtain ⟨hdenotes, hrest⟩ := denotes_of_char? h
      rw [expandChars_of_char? h, List.mem_cons] at hd
      rcases hd with rfl | hd
      · exact .inr hdenotes
      · have hsuffix := hrest.trans (List.suffix_cons '&' t)
        exact (ih hd).imp (fun hmem => hsuffix.subset hmem) fun hden => hden.of_suffix hsuffix
  | ampersand t h ih =>
      rw [expandChars_ampersand h, List.mem_cons] at hd
      rcases hd with rfl | hd
      · exact .inl List.mem_cons_self
      · exact (ih hd).imp (List.mem_cons_of_mem _) fun hden =>
          hden.of_suffix (List.suffix_cons _ t)
  | cons c t hc ih =>
      rw [expandChars_cons hc, List.mem_cons] at hd
      rcases hd with rfl | hd
      · exact .inl List.mem_cons_self
      · exact (ih hd).imp (List.mem_cons_of_mem _) fun hden =>
          hden.of_suffix (List.suffix_cons _ t)

end Doctype.Reference
