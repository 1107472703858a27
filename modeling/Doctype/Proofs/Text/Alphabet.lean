import Mathlib.Data.Nat.Init
import Doctype.Proofs.Text.Blank
import Doctype.Proofs.Text.Name
import Doctype.Text.Declaration

/-!
Texts over an alphabet. The characters of an XML document are the legal ones (`isLegal`), and
names are made of these; an alphabet that covers them may have others too. Taking a text apart
gives texts over the same alphabet, and what is put between parts is legal.
-/

namespace Doctype

def legalRanges : List (Nat × Nat) :=
  [(0x9, 0xA), (0xD, 0xD), (0x20, 0xD7FF), (0xE000, 0xFFFD), (0x10000, 0x10FFFF)]

/-- A character that may stand in an XML document. -/
def isLegal (c : Char) : Bool :=
  inRanges legalRanges c

theorem isLegal_iff {c : Char} : isLegal c = true ↔
    (0x9 ≤ c.toNat ∧ c.toNat ≤ 0xA) ∨ c.toNat = 0xD ∨ (0x20 ≤ c.toNat ∧ c.toNat ≤ 0xD7FF) ∨
      (0xE000 ≤ c.toNat ∧ c.toNat ≤ 0xFFFD) ∨ (0x10000 ≤ c.toNat ∧ c.toNat ≤ 0x10FFFF) := by
  simp only [isLegal, inRanges, legalRanges, List.any_cons, List.any_nil, Bool.or_eq_true,
    Bool.and_eq_true, decide_eq_true_eq, Bool.or_false]
  omega

theorem isLegal_of_isNameChar {c : Char} (h : isNameChar c = true) : isLegal c = true := by
  simp only [isNameChar, isNameStart, inRanges, nameStartRanges, nameRestRanges, List.any_cons,
    List.any_nil, Bool.or_eq_true, Bool.and_eq_true, decide_eq_true_eq, Bool.or_false] at h
  rw [isLegal_iff]
  omega

theorem isLegal_of_isDigit {c : Char} (h : c.isDigit = true) : isLegal c = true := by
  have hrange : 48 ≤ c.toNat ∧ c.toNat ≤ 57 := by
    simpa [Char.isDigit, Char.le_def, UInt32.le_iff_toNat_le] using h
  rw [isLegal_iff]
  omega

/-- An alphabet with every legal character in it. -/
def Covers (A : Char → Prop) : Prop :=
  ∀ c, isLegal c = true → A c

namespace Text

variable {A : Char → Prop} {s t : Text}

def Over (A : Char → Prop) (t : Text) : Prop :=
  ∀ c ∈ t, A c

@[simp] theorem over_nil : Over A [] := by
  simp [Over]

@[simp] theorem over_cons {c : Char} : Over A (c :: t) ↔ A c ∧ Over A t :=
  List.forall_mem_cons

@[simp] theorem over_append : Over A (s ++ t) ↔ Over A s ∧ Over A t :=
  List.forall_mem_append

namespace Over

theorem cons {c : Char} (hc : A c) (h : Over A t) : Over A (c :: t) :=
  over_cons.2 ⟨hc, h⟩

theorem append (hs : Over A s) (ht : Over A t) : Over A (s ++ t) :=
  over_append.2 ⟨hs, ht⟩

theorem of_subset (h : Over A t) (hsubset : s ⊆ t) : Over A s :=
  fun c hc => h c (hsubset hc)

theorem of_suffix (h : Over A t) (hsuffix : s <:+ t) : Over A s :=
  h.of_subset hsuffix.subset

theorem skipBlanks (h : Over A t) : Over A (skipBlanks t) :=
  h.of_suffix (skipBlanks_suffix t)

theorem trim (h : Over A t) : Over A (trim t) := by
  obtain ⟨a, b, ht, -, -⟩ := exists_append_trimBy isWhiteSpace t
  rw [ht] at h
  exact (over_append.1 (over_append.1 h).1).2

theorem of_isRun {inClass : Char → Bool} (h : Over A t) (hs : IsRun inClass s t) :
    Over A s := by
  obtain ⟨-, -, a, b, rfl, -, -⟩ := hs
  exact (over_append.1 (over_append.1 h).1).2

theorem join {separator : Text} {parts : List Text} (hseparator : Over A separator)
    (hparts : ∀ p ∈ parts, Over A p) : Over A (join separator parts) := by
  induction parts with
  | nil => exact over_nil
  | cons p parts ih =>
      obtain ⟨hp, hrest⟩ := List.forall_mem_cons.1 hparts
      cases parts with
      | nil => simpa [Text.join] using hp
      | cons q parts =>
          rw [Text.join, List.intercalate_cons_cons]
          exact (hp.append hseparator).append (ih hrest)

theorem unifyLineEnds {done : Text} (hfeed : A '\n') (hdone : Over A done) (h : Over A t) :
    Over A (unifyLineEnds done t) := by
  fun_induction Text.unifyLineEnds done t with
  | case1 done => exact hdone.of_subset (List.reverse_subset.2 fun _ hc => hc)
  | case2 done t ih => exact ih (hdone.cons hfeed) (over_cons.1 (over_cons.1 h).2).2
  | case3 done t _ ih => exact ih (hdone.cons hfeed) (over_cons.1 h).2
  | case4 done c t _ _ ih => exact ih (hdone.cons (over_cons.1 h).1) (over_cons.1 h).2

theorem normalizeLineEndings (hfeed : A '\n') (h : Over A t) :
    Over A (normalizeLineEndings t) :=
  unifyLineEnds hfeed over_nil h

theorem dropPrefix? {mark rest : Text} (h : Over A t)
    (hrest : dropPrefix? mark t = some rest) : Over A rest := by
  rw [dropPrefix?_eq_some hrest] at h
  exact (over_append.1 h).2

theorem name? {n rest : Text} (h : Over A t) (hname : name? t = some (n, rest)) :
    Over A n ∧ Over A rest := by
  rw [(name?_eq_some hname).1] at h
  exact over_append.1 h

end Over
end Text

namespace Covers

variable {A : Char → Prop} (hA : Covers A)
include hA

theorem char {c : Char} (h : isLegal c = true) : A c :=
  hA c h

theorem text {t : Text} (h : t.all isLegal = true) : Text.Over A t :=
  fun c hc => hA c (List.all_eq_true.1 h c hc)

theorem name {n : Text} (h : Text.isName n = true) : Text.Over A n :=
  fun c hc => hA c (isLegal_of_isNameChar (isNameChar_of_mem_name h hc))

theorem decimal (n : Nat) : Text.Over A (Text.decimal n) :=
  fun c hc =>
    hA c (isLegal_of_isDigit (Nat.isDigit_of_mem_toDigits (by decide) (by decide) hc))

end Covers
end Doctype
