import Doctype.Text.Blank

/-!
Names and name tokens: the character classes, the test for a whole text and the longest name or
name token that a text begins with. What was read and what is left are the text
(`name?_eq_some`, `nmtoken?_eq_some`).
-/

namespace Doctype

def nameStartRanges : List (Nat × Nat) :=
  [(0x3A, 0x3A), (0x41, 0x5A), (0x5F, 0x5F), (0x61, 0x7A), (0xC0, 0xD6), (0xD8, 0xF6),
    (0xF8, 0x2FF),
   (0x370, 0x37D), (0x37F, 0x1FFF), (0x200C, 0x200D), (0x2070, 0x218F), (0x2C00, 0x2FEF),
   (0x3001, 0xD7FF), (0xF900, 0xFDCF), (0xFDF0, 0xFFFD), (0x10000, 0xEFFFF)]

def nameRestRanges : List (Nat × Nat) :=
  [(0x2D, 0x2E), (0x30, 0x39), (0xB7, 0xB7), (0x300, 0x36F), (0x203F, 0x2040)]

def inRanges (ranges : List (Nat × Nat)) (c : Char) : Bool :=
  ranges.any fun (low, high) => low ≤ c.toNat && c.toNat ≤ high

def isNameStart (c : Char) : Bool :=
  inRanges nameStartRanges c

def isNameChar (c : Char) : Bool :=
  isNameStart c || inRanges nameRestRanges c

namespace Text

def isName : Text → Bool
  | c :: t => isNameStart c && t.all isNameChar
  | [] => false

/-- The longest name at the front, and what is left. -/
def name? : Text → Option (Text × Text)
  | c :: t =>
    if isNameStart c then some (c :: t.takeWhile isNameChar, t.dropWhile isNameChar) else none
  | [] => none

def nmtoken? : Text → Option (Text × Text)
  | c :: t =>
    if isNameChar c then some (c :: t.takeWhile isNameChar, t.dropWhile isNameChar) else none
  | [] => none

/-- Whether the text begins with a character that would prolong a name. -/
def startsNameChar : Text → Bool
  | c :: _ => isNameChar c
  | [] => false

theorem name?_eq_some {t n r : Text} (h : name? t = some (n, r)) : t = n ++ r ∧ n ≠ [] := by
  cases t with
  | nil => simp [name?] at h
  | cons c t =>
    simp only [name?] at h
    split at h
    · simp only [Option.some.injEq, Prod.mk.injEq] at h
      obtain ⟨rfl, rfl⟩ := h
      simp
    · simp at h

theorem nmtoken?_eq_some {t n r : Text} (h : nmtoken? t = some (n, r)) :
    t = n ++ r ∧ n ≠ [] := by
  cases t with
  | nil => simp [nmtoken?] at h
  | cons c t =>
    simp only [nmtoken?] at h
    split at h
    · simp only [Option.some.injEq, Prod.mk.injEq] at h
      obtain ⟨rfl, rfl⟩ := h
      simp
    · simp at h

end Text

/-- The class of a character: may begin a name, may only follow in one, a blank, or none of
these. -/
inductive CharClass
  | nameStart
  | nameRest
  | blank
  | other
  deriving DecidableEq

def CharClass.of (c : Char) : CharClass :=
  if isNameStart c then .nameStart
  else if isNameChar c then .nameRest
  else if isBlank c then .blank
  else .other

end Doctype
