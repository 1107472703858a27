import Mathlib.Data.List.TakeWhile
import Doctype.Name

/-!
Where names end. A run of a class is read whole if what follows is not of the class, and what
separates the parts of a declaration, blanks and quotation marks, is never part of a name.
-/

namespace Doctype

namespace Text

theorem span_isNameChar {u t : Text} (hu : u.all isNameChar = true)
    (ht : startsNameChar t = false) :
    (u ++ t).takeWhile isNameChar = u ∧ (u ++ t).dropWhile isNameChar = t := by
  have hall : ∀ c ∈ u, isNameChar c = true := List.all_eq_true.1 hu
  rw [List.takeWhile_append_of_pos hall, List.dropWhile_append_of_pos hall]
  cases t with
  | nil => simp
  | cons c t =>
      have hc : isNameChar c = false := ht
      simp [hc]

theorem span_append_cons {inClass : Char → Bool} {q : Char} (hq : inClass q = false)
    (s t : Text) :
    (s ++ q :: t).takeWhile inClass = s.takeWhile inClass ∧
      (s ++ q :: t).dropWhile inClass = s.dropWhile inClass ++ q :: t := by
  induction s with
  | nil => simp [hq]
  | cons c s ih =>
      by_cases hc : inClass c = true
      · simp [hc, ih]
      · simp [hc]

/-- In front of the first mark outside the class, either everything is of the class, or the run
of the class at the front ends at another character. -/
theorem span_cases {inClass : Char → Bool} {q : Char} (hq : inClass q = false) {s : Text}
    (hs : q ∉ s) (t : Text) :
    (s.all inClass = true ∧ (s ++ q :: t).takeWhile inClass = s ∧
      (s ++ q :: t).dropWhile inClass = q :: t) ∨
      (s.all inClass = false ∧ ∃ e u, (s ++ q :: t).dropWhile inClass = e :: u ∧ e ≠ q) := by
  obtain ⟨htake, hdrop⟩ := span_append_cons hq s t
  cases hleft : s.dropWhile inClass with
  | nil =>
      have hall : ∀ c ∈ s, inClass c = true := List.dropWhile_eq_nil_iff.1 hleft
      refine .inl ⟨List.all_eq_true.2 hall, ?_, by rw [hdrop, hleft, List.nil_append]⟩
      rw [htake, List.takeWhile_eq_self_iff.2 hall]
  | cons e u =>
      have he : e ∈ s := (List.dropWhile_suffix inClass).subset (hleft ▸ List.mem_cons_self)
      have hclass : inClass e = false := by
        have hhead := List.head_dropWhile_not inClass (l := s) (by simp [hleft])
        simpa [hleft] using hhead
      refine .inr ⟨List.all_eq_false.2 ⟨e, he, by simp [hclass]⟩, e, u ++ q :: t, ?_,
        ne_of_mem_of_not_mem he hs⟩
      rw [hdrop, hleft, List.cons_append]

end Text

theorem isNameStart_of_isName {c : Char} {t : Text} (h : Text.isName (c :: t) = true) :
    isNameStart c = true ∧ t.all isNameChar = true := by
  simpa [Text.isName] using h

theorem isNameChar_of_mem_name {n : Text} {c : Char} (hn : Text.isName n = true) (hc : c ∈ n) :
    isNameChar c = true := by
  cases n with
  | nil => cases hc
  | cons d n =>
      obtain ⟨hd, hn⟩ := isNameStart_of_isName hn
      rcases List.mem_cons.1 hc with rfl | hc
      · simp [isNameChar, hd]
      · exact List.all_eq_true.1 hn c hc

theorem isNameChar_eq_false_of_isBlank {c : Char} (h : isBlank c = true) :
    isNameChar c = false := by
  simp only [isBlank, Bool.or_eq_true, decide_eq_true_eq] at h
  rcases h with ((rfl | rfl) | rfl) | rfl <;> decide

theorem isBlank_eq_false_of_mem_name {n : Text} {c : Char} (hn : Text.isName n = true)
    (hc : c ∈ n) : isBlank c = false := by
  have hchar := isNameChar_of_mem_name hn hc
  cases hb : isBlank c with
  | false => rfl
  | true =>
      rw [isNameChar_eq_false_of_isBlank hb] at hchar
      cases hchar

theorem Text.name?_append {n t : Text} (hn : Text.isName n = true)
    (ht : startsNameChar t = false) : name? (n ++ t) = some (n, t) := by
  cases n with
  | nil => cases hn
  | cons c n =>
      obtain ⟨hc, hrest⟩ := isNameStart_of_isName hn
      obtain ⟨htake, hdrop⟩ := span_isNameChar hrest ht
      simp only [List.cons_append, name?, hc, if_true, htake, hdrop]

end Doctype
