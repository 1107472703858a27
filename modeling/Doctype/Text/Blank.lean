import Doctype.Text

/-!
The two notions of white space: the four blanks that separate the parts of a declaration, and
the larger Unicode class that trimming and splitting into words go by. Every blank is white
space (`isWhiteSpace_of_isBlank`).
-/

namespace Doctype

/-- A blank of the grammar: space, tab, carriage return or line feed. -/
def isBlank (c : Char) : Bool :=
  c = ' ' || c = '\t' || c = '\r' || c = '\n'

def isWhiteSpace (c : Char) : Bool :=
  let n := c.toNat
  (9 ≤ n && n ≤ 13) || n = 32 || n = 0x85 || n = 0xA0 || n = 0x1680 ||
    (0x2000 ≤ n && n ≤ 0x200A) || n = 0x2028 || n = 0x2029 || n = 0x202F ||
      n = 0x205F || n = 0x3000

theorem isWhiteSpace_of_isBlank {c : Char} (h : isBlank c = true) : isWhiteSpace c = true := by
  simp only [isBlank, Bool.or_eq_true, decide_eq_true_eq] at h
  rcases h with ((rfl | rfl) | rfl) | rfl <;> decide

namespace Text

def skipBlanks (t : Text) : Text :=
  t.dropWhile isBlank

theorem skipBlanks_suffix (t : Text) : skipBlanks t <:+ t :=
  List.dropWhile_suffix _

def startsBlank : Text → Bool
  | c :: _ => isBlank c
  | [] => false

def trimBy (inClass : Char → Bool) (t : Text) : Text :=
  ((t.dropWhile inClass).reverse.dropWhile inClass).reverse

def trim (t : Text) : Text :=
  trimBy isWhiteSpace t

/-- The pieces between white space, none of them empty. -/
def words (t : Text) : List Text :=
  (splitBy isWhiteSpace t).filter (! ·.isEmpty)

end Text
end Doctype
