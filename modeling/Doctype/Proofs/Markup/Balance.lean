import Mathlib.Data.List.Infix
import Doctype.Markup.Section

/-!
The marks of conditional sections in a text. A section that is ignored is skipped up to the
first end of a section that no beginning in front of it answers for, wherever these marks
stand: it has no end if no part of the text from its beginning on has more ends than beginnings
(`skipIgnored_eq_none_iff`), and else what is skipped is the text in front of it in which the
marks balance (`skipIgnored_eq_some_iff`).
-/

namespace Doctype

def Text.occurrences (mark t : Text) : Nat :=
  t.tails.countP mark.isPrefixOf

theorem Text.occurrences_cons {mark t : Text} {d : Char} (h : ∀ u, d :: t ≠ mark ++ u) :
    occurrences mark (d :: t) = occurrences mark t := by
  rw [occurrences, List.tails, List.countP_cons_of_neg]
  · rfl
  · intro hprefix
    obtain ⟨u, hu⟩ := List.isPrefixOf_iff_prefix.1 hprefix
    exact h u hu.symm

namespace Markup

variable {depth : Nat} {t y rest : Text} {d : Char}

/-- How often a conditional section begins in a text, if only its first mark is looked at. -/
def openings (t : Text) : Nat :=
  Text.occurrences "<![" t

def closings (t : Text) : Nat :=
  Text.occurrences "]]>" t

/-- The marks of sections in a text balance: no part at its front has more ends than
beginnings, and all of it has as many of the ones as of the others. -/
structure Balanced (y : Text) : Prop where
  closings_le : ∀ p, p <+: y → closings p ≤ openings p
  closings_eq : closings y = openings y

instance (y : Text) : Decidable (Balanced y) :=
  decidable_of_iff ((∀ p ∈ y.inits, closings p ≤ openings p) ∧ closings y = openings y)
    ⟨fun h => ⟨fun p hp => h.1 p (List.mem_inits p y |>.2 hp), h.2⟩,
      fun h => ⟨fun p hp => h.closings_le p (List.mem_inits p y |>.1 hp), h.closings_eq⟩⟩

/-! ### Counting -/

theorem openings_closing (t : Text) : openings (']' :: ']' :: '>' :: t) = openings t := by
  simp [openings, Text.occurrences, List.isPrefixOf]

theorem closings_closing (t : Text) : closings (']' :: ']' :: '>' :: t) = closings t + 1 := by
  simp [closings, Text.occurrences, List.isPrefixOf]

theorem openings_opening (t : Text) : openings ('<' :: '!' :: '[' :: t) = openings t + 1 := by
  simp [openings, Text.occurrences, List.isPrefixOf]

theorem closings_opening (t : Text) : closings ('<' :: '!' :: '[' :: t) = closings t := by
  simp [closings, Text.occurrences, List.isPrefixOf]

/-! ### Sections that stay open -/

/-- Nowhere in the text a section ends that was open in front of it together with `depth`
further ones. -/
def StaysOpen (depth : Nat) (t : Text) : Prop :=
  ∀ p, p <+: t → closings p ≤ depth + openings p

theorem staysOpen_nil (depth : Nat) : StaysOpen depth [] := by
  intro p hp
  rw [List.prefix_nil.1 hp]
  exact Nat.zero_le _

/-- Where no mark begins, one character is of no consequence. -/
theorem staysOpen_cons_iff (hclose : ∀ u, d :: t ≠ ']' :: ']' :: '>' :: u)
    (hopen : ∀ u, d :: t ≠ '<' :: '!' :: '[' :: u) : StaysOpen depth (d :: t) ↔
      StaysOpen depth t := by
  have hcounts {p : Text} (hp : p <+: t) : closings (d :: p) = closings p ∧
      openings (d :: p) = openings p := by
    obtain ⟨v, rfl⟩ := hp
    constructor
    · exact Text.occurrences_cons fun u hu => hclose (u ++ v) (congrArg (· ++ v) hu)
    · exact Text.occurrences_cons fun u hu => hopen (u ++ v) (congrArg (· ++ v) hu)
  constructor
  · intro h p hp
    have hle := h (d :: p) ((List.prefix_cons_inj d).2 hp)
    rwa [(hcounts hp).1, (hcounts hp).2] at hle
  · intro h p hp
    obtain rfl | ⟨q, rfl, hq⟩ := List.prefix_cons_iff.1 hp
    · exact Nat.zero_le _
    · rw [(hcounts hq).1, (hcounts hq).2]
      exact h q hq

theorem closings_eq_zero_or_of_prefix {a b c : Char} {p : Text} (hp : p <+: a :: b :: c :: t) :
    closings p = 0 ∨ ∃ q, p = a :: b :: c :: q ∧ q <+: t := by
  obtain rfl | ⟨p₁, rfl, hp₁⟩ := List.prefix_cons_iff.1 hp
  · exact .inl rfl
  obtain rfl | ⟨p₂, rfl, hp₂⟩ := List.prefix_cons_iff.1 hp₁
  · exact .inl (by simp [closings, Text.occurrences, List.isPrefixOf])
  obtain rfl | ⟨q, rfl, hq⟩ := List.prefix_cons_iff.1 hp₂
  · exact .inl (by simp [closings, Text.occurrences, List.isPrefixOf])
  · exact .inr ⟨q, rfl, hq⟩

theorem staysOpen_closing_iff :
    StaysOpen (depth + 1) (']' :: ']' :: '>' :: t) ↔ StaysOpen depth t := by
  constructor
  · intro h p hp
    have hle := h (']' :: ']' :: '>' :: p) (by simpa only [List.prefix_cons_inj] using hp)
    rw [closings_closing, openings_closing] at hle
    omega
  · intro h p hp
    obtain hnone | ⟨q, rfl, hq⟩ := closings_eq_zero_or_of_prefix hp
    · omega
    · have hle := h q hq
      rw [closings_closing, openings_closing]
      omega

theorem not_staysOpen_closing (t : Text) : ¬ StaysOpen 0 (']' :: ']' :: '>' :: t) := by
  intro h
  have hle := h "]]>" ⟨t, rfl⟩
  exact absurd hle (by decide)

theorem staysOpen_opening_iff :
    StaysOpen depth ('<' :: '!' :: '[' :: t) ↔ StaysOpen (depth + 1) t := by
  constructor
  · intro h p hp
    have hle := h ('<' :: '!' :: '[' :: p) (by simpa only [List.prefix_cons_inj] using hp)
    rw [closings_opening, openings_opening] at hle
    omega
  · intro h p hp
    obtain hnone | ⟨q, rfl, hq⟩ := closings_eq_zero_or_of_prefix hp
    · omega
    · have hle := h q hq
      rw [closings_opening, openings_opening]
      omega

/-! ### Skipping -/

theorem skipIgnored_cons (hclose : ∀ u, d :: t ≠ ']' ::
    ']' :: '>' :: u) (hopen : ∀ u, d :: t ≠ '<' :: '!' :: '[' :: u) (depth :
    Nat) : skipIgnored depth (d :: t) = skipIgnored depth t := by
  rw [skipIgnored]
  · rintro u rfl rfl
    exact hclose u rfl
  · rintro u rfl rfl
    exact hopen u rfl

/-- A skipped section has no end if it stays open throughout the text. -/
theorem skipIgnored_eq_none_iff : skipIgnored depth t = none ↔ StaysOpen depth t := by
  fun_induction skipIgnored depth t with
  | case1 t => simp only [reduceCtorEq, not_staysOpen_closing]
  | case2 t depth ih => rw [ih, staysOpen_closing_iff]
  | case3 depth t ih => rw [ih, staysOpen_opening_iff]
  | case4 depth d t hclose hopen ih =>
      rw [ih, staysOpen_cons_iff]
      · rintro u ⟨⟩
        exact hclose u rfl rfl
      · rintro u ⟨⟩
        exact hopen u rfl rfl
  | case5 depth => simp only [staysOpen_nil]

theorem ne_of_end_behind {a b e : Char} (he : e ≠ ']') (h :
    ∀ u, d :: y ≠ a :: b :: e :: u) (rest : Text) :
      ∀ u, d :: (y ++ ("]]>".toList ++ rest)) ≠ a :: b :: e :: u := by
  rcases y with - | ⟨x, - | ⟨z, v⟩⟩
  · rintro u ⟨⟩
    exact he rfl
  · rintro u ⟨⟩
    exact he rfl
  · rintro u ⟨⟩
    exact h v rfl

/-- A text through which a section stays open, and that leaves it to be ended, is skipped with
the end behind it. -/
theorem skipIgnored_append (hopen : StaysOpen depth y)
    (hequal : closings y = depth + openings y) (rest : Text) :
    skipIgnored depth (y ++ ("]]>".toList ++ rest)) = some rest := by
  fun_induction skipIgnored depth y with
  | case1 y => exact absurd hopen (not_staysOpen_closing y)
  | case2 y depth ih =>
      rw [closings_closing, openings_closing] at hequal
      exact ih (staysOpen_closing_iff.1 hopen) (by omega)
  | case3 depth y ih =>
      rw [closings_opening, openings_opening] at hequal
      exact ih (staysOpen_opening_iff.1 hopen) (by omega)
  | case4 depth d y hnoclose hnoopen ih =>
      have hclose : ∀ u, d :: y ≠ ']' :: ']' :: '>' :: u := by
        rintro u ⟨⟩
        exact hnoclose u rfl rfl
      have hopening : ∀ u, d :: y ≠ '<' :: '!' :: '[' :: u := by
        rintro u ⟨⟩
        exact hnoopen u rfl rfl
      have hclosings : closings (d :: y) = closings y := Text.occurrences_cons hclose
      have hopenings : openings (d :: y) = openings y := Text.occurrences_cons hopening
      rw [List.cons_append, skipIgnored_cons (ne_of_end_behind (by decide) hclose rest)
        (ne_of_end_behind (by decide) hopening rest)]
      exact ih ((staysOpen_cons_iff hclose hopening).1 hopen) (by omega)
  | case5 depth =>
      have hdepth : depth = 0 := by
        change 0 = depth + 0 at hequal
        omega
      subst hdepth
      rfl

/-- What is skipped is such a text, with the end behind it. -/
theorem exists_of_skipIgnored (h : skipIgnored depth t = some rest) :
    ∃ y, StaysOpen depth y ∧ closings y = depth + openings y ∧
      t = y ++ ("]]>".toList ++ rest) := by
  fun_induction skipIgnored depth t with
  | case1 t =>
      cases h
      exact ⟨[], staysOpen_nil 0, rfl, rfl⟩
  | case2 t depth ih =>
      obtain ⟨y, hopen, hequal, rfl⟩ := ih h
      refine ⟨']' :: ']' :: '>' :: y, staysOpen_closing_iff.2 hopen, ?_, rfl⟩
      rw [closings_closing, openings_closing]
      omega
  | case3 depth t ih =>
      obtain ⟨y, hopen, hequal, rfl⟩ := ih h
      refine ⟨'<' :: '!' :: '[' :: y, staysOpen_opening_iff.2 hopen, ?_, rfl⟩
      rw [closings_opening, openings_opening]
      omega
  | case4 depth d t hnoclose hnoopen ih =>
      obtain ⟨y, hopen, hequal, rfl⟩ := ih h
      have hclose : ∀ u, d :: y ≠ ']' :: ']' :: '>' :: u := by
        rintro u ⟨⟩
        exact hnoclose _ rfl rfl
      have hopening : ∀ u, d :: y ≠ '<' :: '!' :: '[' :: u := by
        rintro u ⟨⟩
        exact hnoopen _ rfl rfl
      have hclosings : closings (d :: y) = closings y := Text.occurrences_cons hclose
      have hopenings : openings (d :: y) = openings y := Text.occurrences_cons hopening
      exact ⟨d :: y, (staysOpen_cons_iff hclose hopening).2 hopen, by omega, rfl⟩
  | case5 => cases h

theorem balanced_iff : Balanced y ↔ StaysOpen 0 y ∧ closings y = 0 + openings y := by
  simp only [StaysOpen, Nat.zero_add]
  exact ⟨fun h => ⟨h.closings_le, h.closings_eq⟩, fun h => ⟨h.1, h.2⟩⟩

/-- A section is skipped up to the end behind the text in which the marks balance. -/
theorem skipIgnored_eq_some_iff :
    skipIgnored 0 t = some rest ↔ ∃ y, Balanced y ∧ t = y ++ ("]]>".toList ++ rest) := by
  simp only [balanced_iff, and_assoc]
  constructor
  · exact exists_of_skipIgnored
  · rintro ⟨y, hopen, hequal, rfl⟩
    exact skipIgnored_append hopen hequal rest

end Markup
end Doctype
