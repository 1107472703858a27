import Doctype.Text.Number

/-!
Properties of code points as tables. A table has runs of code points, the first of which begins
at zero; the code points of a run share a value. It is written run by run: the number of code
points in hexadecimal digits, left out if it is one, and a capital letter with what else
belongs to the value.
-/

namespace Doctype.Unicode

/-- Runs of code points, each with its length and its value. -/
abbrev Table (α : Type) := List (Nat × α)

namespace Table

/-- The value of a code point and its place in the run. -/
def find? {α : Type} : Table α → Nat → Option (α × Nat)
  | [], _ => none
  | (length, value) :: runs, n =>
    if n < length then some (value, n) else find? runs (n - length)

/-- The value of a character, which is `default` behind the last run. -/
def value {α : Type} (table : Table α) (default : α) (c : Char) : α :=
  ((table.find? c.toNat).map (·.1)).getD default

def isLengthDigit (c : Char) : Bool :=
  Text.isDigit 16 c && !c.isUpper

/-- One run; `value` reads what is behind the length. -/
def readRun {α : Type} (value : Text → α) (run : Text) : Nat × α :=
  let digits := run.takeWhile isLengthDigit
  (if digits.isEmpty then 1 else Text.ofDigits 16 digits, value (run.dropWhile isLengthDigit))

def words (t : Text) : List Text :=
  (Text.splitBy (fun c => c = ' ' || c = '\n') t).filter (! ·.isEmpty)

def read {α : Type} (value : Text → α) (t : Text) : Table α :=
  (words t).map (readRun value)

/-- Code points in hexadecimal digits, with dots between them. -/
def readCodes (t : Text) : List Nat :=
  (Text.splitBy (· = '.') t).map (Text.ofDigits 16)

end Table
end Doctype.Unicode
