import Doctype.Text

/-!
Numbers written in digits, and the characters that they number.
-/

namespace Doctype.Text

def digit? (base : Nat) (c : Char) : Option Nat :=
  let n :=
    if '0' ≤ c ∧ c ≤ '9' then c.toNat - '0'.toNat
    else if 'a' ≤ c ∧ c ≤ 'f' then c.toNat - 'a'.toNat + 10
    else if 'A' ≤ c ∧ c ≤ 'F' then c.toNat - 'A'.toNat + 10
    else base
  if n < base then some n else none

def isDigit (base : Nat) (c : Char) : Bool :=
  (digit? base c).isSome

/-- The number that digits write, most significant first; another character counts as zero. -/
def ofDigits (base : Nat) (t : Text) : Nat :=
  t.foldl (fun n c => n * base + (digit? base c).getD 0) 0

def digits? (base : Nat) (t : Text) : Option Nat :=
  if t ≠ [] ∧ t.all (isDigit base) then some (ofDigits base t) else none

/-- The number that digits write, a plus sign in front allowed. -/
def number? (base : Nat) : Text → Option Nat
  | '+' :: t => digits? base t
  | t => digits? base t

def charOfCode? (n : Nat) : Option Char :=
  if n.isValidChar then some (Char.ofNat n) else none

end Doctype.Text
