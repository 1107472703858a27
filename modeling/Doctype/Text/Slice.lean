import Doctype.Text

/-!
Slices of a text at byte offsets, and searches that give the offset of what they find. A cut
fails behind the end of a text and inside of a character.
-/

namespace Doctype.Text

variable {t rest mark : Text} {n : Nat}

/-! ### Cuts -/

/-- What is left of a text behind its first bytes. -/
def from? : Text → Nat → Option Text
  | t, 0 => some t
  | [], _ + 1 => none
  | c :: t, n + 1 => if c.utf8Size ≤ n + 1 then from? t (n + 1 - c.utf8Size) else none

def upTo? : Text → Nat → Option Text
  | _, 0 => some []
  | [], _ + 1 => none
  | c :: t, n + 1 =>
    if c.utf8Size ≤ n + 1 then (upTo? t (n + 1 - c.utf8Size)).map (c :: ·) else none

def between? (t : Text) (start stop : Nat) : Option Text :=
  if start ≤ stop then (t.from? start).bind fun rest => rest.upTo? (stop - start) else none

theorem exists_of_from? (h : t.from? n = some rest) : ∃ u, t = u ++ rest ∧ size u = n := by
  fun_induction from? t n with
  | case1 t =>
      cases h
      exact ⟨[], rfl, rfl⟩
  | case2 => cases h
  | case3 c t n hc ih =>
      obtain ⟨u, rfl, hsize⟩ := ih h
      refine ⟨c :: u, rfl, ?_⟩
      rw [size_cons]
      omega
  | case4 => cases h

theorem size_of_from? (h : t.from? n = some rest) : size t = n + size rest := by
  obtain ⟨u, rfl, rfl⟩ := exists_of_from? h
  exact size_append u rest

/-! ### Searching -/

def findChar? (inClass : Char → Bool) : Text → Option Nat
  | [] => none
  | c :: t => if inClass c then some 0 else (findChar? inClass t).map (c.utf8Size + ·)

def find? (mark : Text) : Text → Option Nat
  | [] => if mark.isPrefixOf [] then some 0 else none
  | c :: t => if mark.isPrefixOf (c :: t) then some 0 else (find? mark t).map (c.utf8Size + ·)

/-- A mark that is found ends within the text. -/
theorem find?_add_size_le (h : find? mark t = some n) : n + size mark ≤ size t := by
  have hfront {t : Text} (hmark : mark.isPrefixOf t = true) : size mark ≤ size t := by
    obtain ⟨u, rfl⟩ := List.isPrefixOf_iff_prefix.1 hmark
    rw [size_append]
    exact Nat.le_add_right _ _
  induction t generalizing n with
  | nil =>
    rw [find?] at h
    split at h
    · next hmark =>
      cases h
      exact Nat.le_trans (Nat.le_of_eq (Nat.zero_add _)) (hfront hmark)
    · cases h
  | cons c t ih =>
    rw [find?] at h
    split at h
    · next hmark =>
      cases h
      exact Nat.le_trans (Nat.le_of_eq (Nat.zero_add _)) (hfront hmark)
    · obtain ⟨m, hm, rfl⟩ := Option.map_eq_some_iff.1 h
      have := ih hm
      rw [size_cons]
      omega

/-! ### Lines -/

def lineBreaksBefore : Text → Nat → Nat
  | _, 0 => 0
  | [], _ + 1 => 0
  | c :: t, n + 1 => (if c = '\n' then 1 else 0) + lineBreaksBefore t (n + 1 - c.utf8Size)

end Doctype.Text
