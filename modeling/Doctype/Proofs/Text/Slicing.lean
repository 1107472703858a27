import Mathlib.Data.List.Infix
import Doctype.Text.Buffer
import Doctype.Text.Search
import Doctype.Text.Slice

/-!
Texts cut at byte offsets. A cut fails behind the end of a text and inside of a character. At
the offset of what is left of a text it gives what is left (`from?_offset`), and between two
such offsets what stands there (`between?_offset`); the offset of a mark is where the text
breaks at it (`find?_eq`). Where a cut does not fail is a boundary (`IsBoundary`).
-/

namespace Doctype.Text

variable {t u rest left inside mark : Text} {c : Char} {n : Nat}

/-! ### Cuts -/

@[simp] theorem from?_zero (t : Text) : t.from? 0 = some t := by
  cases t <;> rfl

theorem from?_cons (c : Char) (t : Text) (n : Nat) :
    from? (c :: t) (c.utf8Size + n) = t.from? n := by
  obtain ⟨k, hk⟩ := Nat.exists_eq_add_one_of_ne_zero (Nat.ne_of_gt c.utf8Size_pos)
  have hsum : c.utf8Size + n = k + n + 1 := by omega
  rw [hsum, from?, if_pos (by omega)]
  congr 1
  omega

theorem upTo?_cons (c : Char) (t : Text) (n : Nat) :
    upTo? (c :: t) (c.utf8Size + n) = (t.upTo? n).map (c :: ·) := by
  obtain ⟨k, hk⟩ := Nat.exists_eq_add_one_of_ne_zero (Nat.ne_of_gt c.utf8Size_pos)
  have hsum : c.utf8Size + n = k + n + 1 := by omega
  have hrest : k + n + 1 - c.utf8Size = n := by omega
  rw [hsum, upTo?, if_pos (by omega), hrest]

theorem from?_size (u rest : Text) : (u ++ rest).from? (size u) = some rest := by
  induction u with
  | nil => exact from?_zero rest
  | cons c u ih => rw [List.cons_append, size_cons, from?_cons, ih]

theorem upTo?_size (u rest : Text) : (u ++ rest).upTo? (size u) = some u := by
  induction u with
  | nil => cases rest <;> rfl
  | cons c u ih => rw [List.cons_append, size_cons, upTo?_cons, ih, Option.map_some]

theorem suffix_of_from? (h : t.from? n = some rest) : rest <:+ t := by
  obtain ⟨u, rfl, -⟩ := exists_of_from? h
  exact List.suffix_append u rest

theorem length_lt_of_from? (h : t.from? n = some rest) (hn : 0 < n) :
    rest.length < t.length := by
  obtain ⟨u, rfl, rfl⟩ := exists_of_from? h
  cases u with
  | nil => cases hn
  | cons c u =>
      rw [List.length_append, List.length_cons]
      omega

/-! ### Offsets of what is left -/

@[simp] theorem offset_self (t : Text) : offset t t = 0 :=
  Nat.sub_self _

@[simp] theorem offset_nil (t : Text) : offset t [] = size t :=
  Nat.sub_zero _

theorem offset_append_left (u rest : Text) : offset (u ++ rest) rest = size u := by
  rw [offset, size_append, Nat.add_sub_cancel]

theorem offset_append (h : inside ++ left <:+ t) :
    offset t left = offset t (inside ++ left) + size inside := by
  obtain ⟨u, rfl⟩ := h
  rw [offset_append_left, ← List.append_assoc, offset_append_left, size_append]

theorem offset_cons (h : c :: rest <:+ t) :
    offset t rest = offset t (c :: rest) + c.utf8Size := by
  have hone : [c] ++ rest <:+ t := h
  rw [offset_append hone, size_cons, size_nil, Nat.add_zero]
  rfl

theorem offset_add_size (h : rest <:+ t) : offset t rest + size rest = size t := by
  obtain ⟨u, rfl⟩ := h
  rw [offset_append_left, size_append]

theorem offset_of_from? (h : rest <:+ t) (hleft : rest.from? n = some left) :
    offset t left = offset t rest + n := by
  obtain ⟨u, rfl, rfl⟩ := exists_of_from? hleft
  exact offset_append h

theorem offset_trans (h : rest <:+ t) (hleft : left <:+ rest) :
    offset t left = offset t rest + offset rest left := by
  obtain ⟨inside, rfl⟩ := hleft
  rw [offset_append h, offset_append_left]

theorem offset_le (t rest : Text) : offset t rest ≤ size t :=
  Nat.sub_le _ _

theorem offset_lt (h : rest <:+ t) (hleft : left <:+ rest)
    (hlength : left.length < rest.length) : offset t rest < offset t left := by
  obtain ⟨inside, rfl⟩ := hleft
  cases inside with
  | nil => exact absurd hlength (Nat.lt_irrefl _)
  | cons c inside =>
      have := c.utf8Size_pos
      rw [offset_append h, size_cons]
      omega

theorem from?_offset (h : rest <:+ t) : t.from? (offset t rest) = some rest := by
  obtain ⟨u, rfl⟩ := h
  rw [offset_append_left, from?_size]

theorem between?_offset (h : inside ++ left <:+ t) :
    t.between? (offset t (inside ++ left)) (offset t left) = some inside := by
  rw [between?, offset_append h, if_pos (Nat.le_add_right _ _), from?_offset h,
    Nat.add_sub_cancel_left]
  exact upTo?_size inside left

theorem from?_offset_add (h : rest <:+ t) (n : Nat) :
    t.from? (offset t rest + n) = rest.from? n := by
  obtain ⟨u, rfl⟩ := h
  rw [offset_append_left]
  induction u with
  | nil => simp
  | cons c u ih => rw [List.cons_append, size_cons, Nat.add_assoc, from?_cons, ih]

/-! ### Searching -/

theorem findChar?_not (inClass : Char → Bool) (t : Text) :
    (findChar? (fun c => !inClass c) t).getD (size t) = size (t.takeWhile inClass) := by
  induction t with
  | nil => rfl
  | cons c t ih =>
      rw [findChar?, List.takeWhile_cons]
      cases inClass c with
      | false => rfl
      | true =>
          rw [if_pos rfl, size_cons, size_cons, ← ih]
          cases findChar? (fun c => !inClass c) t <;> rfl

theorem offset_dropWhile (h : rest <:+ t) (inClass : Char → Bool) :
    offset t (rest.dropWhile inClass) =
      offset t rest + (findChar? (fun c => !inClass c) rest).getD (size rest) := by
  have hrest : rest.takeWhile inClass ++ rest.dropWhile inClass <:+ t := by
    rwa [List.takeWhile_append_dropWhile]
  rw [findChar?_not, offset_append hrest, List.takeWhile_append_dropWhile]

theorem isPrefixOf_eq_isSome (mark t : Text) :
    mark.isPrefixOf t = (dropPrefix? mark t).isSome := by
  unfold dropPrefix?
  cases mark.isPrefixOf t <;> rfl

theorem map_size_breakFrom? (mark before t : Text) :
    (breakFrom? mark before t).map (fun p => size p.1) =
      (find? mark t).map (size before + ·) := by
  fun_induction breakFrom? mark before t with
  | case1 t before after hdrop =>
      have hprefix : mark.isPrefixOf t = true := by
        rw [isPrefixOf_eq_isSome, hdrop, Option.isSome_some]
      cases t <;> simp [find?, hprefix, Buffer.size_reverse]
  | case2 before hdrop =>
      have hprefix : mark.isPrefixOf [] = false := by
        rw [isPrefixOf_eq_isSome, hdrop, Option.isSome_none]
      simp [find?, hprefix]
  | case3 before c t hdrop ih =>
      have hprefix : mark.isPrefixOf (c :: t) = false := by
        rw [isPrefixOf_eq_isSome, hdrop, Option.isSome_none]
      rw [ih, find?, hprefix, size_cons]
      cases find? mark t with
      | none => rfl
      | some n =>
          refine congrArg some ?_
          change c.utf8Size + size before + n = size before + (c.utf8Size + n)
          omega

/-- The first place of a mark is where the text breaks at it. -/
theorem find?_eq (mark t : Text) : find? mark t = (breakAt? mark t).map fun p => size p.1 := by
  rw [breakAt?, map_size_breakFrom?]
  simp

theorem find?_singleton_append {v : Text} (hv : c ∉ v) (rest : Text) :
    find? [c] (v ++ c :: rest) = some (size v) := by
  induction v with
  | nil => simp [find?]
  | cons d v ih =>
      have hd : c ≠ d := List.ne_of_not_mem_cons hv
      rw [List.cons_append, find?, ih (List.not_mem_of_not_mem_cons hv), size_cons]
      simp [hd]

theorem find?_singleton_eq_none (ht : c ∉ t) : find? [c] t = none := by
  induction t with
  | nil => rfl
  | cons d t ih =>
      have hd : c ≠ d := List.ne_of_not_mem_cons ht
      rw [find?, ih (List.not_mem_of_not_mem_cons ht)]
      simp [hd]

/-! ### Boundaries -/

/-- Whether a text can be cut behind `n` bytes without splitting a character. -/
def IsBoundary (t : Text) (n : Nat) : Prop :=
  ∃ s u, t = s ++ u ∧ size s = n

theorem isBoundary_size (s u : Text) : IsBoundary (s ++ u) (size s) :=
  ⟨s, u, rfl, rfl⟩

theorem IsBoundary.le_size {t : Text} {n : Nat} (h : t.IsBoundary n) : n ≤ size t := by
  obtain ⟨s, u, rfl, rfl⟩ := h
  rw [size_append]
  exact Nat.le_add_right _ _

/-- One byte behind the beginning of a character there is a boundary only if the character has
one byte. -/
theorem isBoundary_succ_iff {s u : Text} {c : Char} :
    IsBoundary (s ++ c :: u) (size s + 1) ↔ c.utf8Size = 1 := by
  constructor
  · rintro ⟨s', u', heq, hsize⟩
    have hpos := c.utf8Size_pos
    have hs : s <+: s ++ c :: u := List.prefix_append _ _
    have hs' : s' <+: s ++ c :: u := heq ▸ List.prefix_append _ _
    rcases List.prefix_or_prefix_of_prefix hs hs' with ⟨w, rfl⟩ | ⟨w, rfl⟩
    · rw [List.append_assoc, List.append_cancel_left_eq] at heq
      rw [size_append] at hsize
      cases w with
      | nil => simp at hsize
      | cons d w =>
          obtain ⟨rfl, -⟩ := List.cons.inj heq
          rw [size_cons] at hsize
          omega
    · rw [size_append] at hsize
      omega
  · intro hc
    refine ⟨s ++ [c], u, by simp, ?_⟩
    rw [size_append, size_cons, size_nil, hc]

theorem isBoundary_offset (h : rest <:+ t) : t.IsBoundary (offset t rest) := by
  obtain ⟨u, rfl⟩ := h
  exact ⟨u, rest, rfl, (offset_append_left u rest).symm⟩

theorem dropBytes_size (u rest : Text) : dropBytes (size u) (u ++ rest) = rest := by
  induction u with
  | nil =>
      rw [size_nil, dropBytes]
      rfl
  | cons c u ih =>
      obtain ⟨k, hk⟩ := Nat.exists_eq_add_one_of_ne_zero (Nat.ne_of_gt c.utf8Size_pos)
      have hsize : size (c :: u) = k + size u + 1 := by
        rw [size_cons]
        omega
      have hrest : k + size u + 1 - c.utf8Size = size u := by omega
      rw [List.cons_append, hsize, dropBytes, hrest, ih]

theorem IsBoundary.exists_rest (h : t.IsBoundary n) :
    ∃ rest, rest <:+ t ∧ n = offset t rest ∧ dropBytes n t = rest := by
  obtain ⟨u, rest, rfl, rfl⟩ := h
  exact ⟨rest, List.suffix_append u rest, (offset_append_left u rest).symm,
    dropBytes_size u rest⟩

/-! ### Lines -/

theorem lineBreaksBefore_size (u rest : Text) :
    (u ++ rest).lineBreaksBefore (size u) = lineBreaks u := by
  induction u with
  | nil => cases rest <;> rfl
  | cons c u ih =>
      obtain ⟨k, hk⟩ := Nat.exists_eq_add_one_of_ne_zero (Nat.ne_of_gt c.utf8Size_pos)
      have hsize : size (c :: u) = k + size u + 1 := by
        rw [size_cons]
        omega
      have hrest : k + size u + 1 - c.utf8Size = size u := by omega
      rw [List.cons_append, hsize, lineBreaksBefore, hrest, ih, lineBreaks, lineBreaks,
        List.count_cons, Nat.add_comm]
      by_cases hc : c = '\n' <;> simp [hc]

theorem lineBreaksBefore_offset {text rest : Text} (h : rest <:+ text) :
    text.lineBreaksBefore (offset text rest) = lineBreaks text - lineBreaks rest := by
  obtain ⟨u, rfl⟩ := h
  rw [offset_append_left, lineBreaksBefore_size, lineBreaks, lineBreaks, lineBreaks,
    List.count_append, Nat.add_sub_cancel]

end Doctype.Text
