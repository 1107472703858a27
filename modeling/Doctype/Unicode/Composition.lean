import Doctype.Unicode.Combining
import Doctype.Unicode.Data.Pairs

/-!
The composed normal form of a text. Every character is taken apart as far as that goes, marks
are put in the order of their classes, and then each base takes in the marks that it can be
written as one with. The pairs are those of characters that a domain name may hold.
-/

namespace Doctype.Unicode

structure Pair where
  base : Nat
  mark : Nat
  whole : Nat

def Pair.read? (t : Text) : Option Pair :=
  match Table.readCodes t with
  | [base, mark, whole] => some ⟨base, mark, whole⟩
  | _ => none

def pairs : List Pair :=
  (Table.words pairRows).filterMap Pair.read?

namespace Hangul

def isSyllable (n : Nat) : Bool :=
  0xAC00 ≤ n && n < 0xAC00 + 19 * 21 * 28

def isOpen (n : Nat) : Bool :=
  isSyllable n && (n - 0xAC00) % 28 = 0

/-- The two code points that make up a syllable: a consonant and a vowel, or an open syllable
and a consonant. -/
def parts? (n : Nat) : Option (Nat × Nat) :=
  if isOpen n then some (0x1100 + (n - 0xAC00) / 28 / 21, 0x1161 + (n - 0xAC00) / 28 % 21)
  else if isSyllable n then some (n - (n - 0xAC00) % 28, 0x11A7 + (n - 0xAC00) % 28)
  else none

def compose? (a b : Nat) : Option Nat :=
  if 0x1100 ≤ a ∧ a < 0x1100 + 19 ∧ 0x1161 ≤ b ∧ b < 0x1161 + 21 then
    some (0xAC00 + ((a - 0x1100) * 21 + (b - 0x1161)) * 28)
  else if isOpen a ∧ 0x11A7 < b ∧ b < 0x11A7 + 28 then some (a + (b - 0x11A7))
  else none

end Hangul

def parts? (c : Char) : Option (Char × Char) :=
  (match Hangul.parts? c.toNat with
    | some parts => some parts
    | none =>
      (pairs.find? fun p : Pair => p.whole = c.toNat).map fun p : Pair => (p.base, p.mark)).map
      fun (a, b) => (Char.ofNat a, Char.ofNat b)

def compose? (a b : Char) : Option Char :=
  (match Hangul.compose? a.toNat b.toNat with
    | some whole => some whole
    | none =>
      (pairs.find? fun p : Pair => p.base = a.toNat && p.mark = b.toNat).map Pair.whole).map
      Char.ofNat

/-- A character taken apart, in at most `depth` steps. -/
def decompose : Nat → Char → Text
  | 0, c => [c]
  | depth + 1, c =>
    match parts? c with
    | some (a, b) => decompose depth a ++ [b]
    | none => [c]

/-- Puts a character in front of an ordered text and behind the marks of lower classes
there. -/
def insertMark (c : Char) : Text → Text
  | [] => [c]
  | d :: t =>
    if combiningClass d ≠ 0 ∧ combiningClass d < combiningClass c then d :: insertMark c t
    else c :: d :: t

def orderMarks (t : Text) : Text :=
  t.foldr insertMark []

/-- Composes the text behind `base`, of which the reversed `marks`, the last of the class
`last`, could not be taken in. A character is out of reach behind one of the same or a higher
class. -/
def composeFrom (base : Char) (marks : Text) (last : Nat) : Text → Text
  | [] => base :: marks.reverse
  | c :: t =>
    match if marks.isEmpty || last < combiningClass c then compose? base c else none with
    | some whole => composeFrom whole marks last t
    | none =>
      if combiningClass c = 0 then base :: marks.reverse ++ composeFrom c [] 0 t
      else composeFrom base (c :: marks) (combiningClass c) t

/-- Composes a text whose marks are in order; those in front of the first base stay. -/
def composeAll (t : Text) : Text :=
  let isLoose (c : Char) : Bool := combiningClass c ≠ 0
  match t.dropWhile isLoose with
  | [] => t
  | base :: rest => t.takeWhile isLoose ++ composeFrom base [] 0 rest

/-- The composed normal form of a text. No character takes more than four steps to take
apart. -/
def normalize (t : Text) : Text :=
  composeAll (orderMarks (t.flatMap (decompose 4)))

end Doctype.Unicode
