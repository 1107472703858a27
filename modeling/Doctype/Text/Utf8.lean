import Doctype.Text

/-!
Text as bytes in UTF-8, and bytes as text where each ill-formed piece becomes one replacement
character.
-/

namespace Doctype.Text

def toBytes (t : Text) : List UInt8 :=
  t.flatMap String.utf8EncodeChar

def replacement : Char := '\uFFFD'

/-- The lowest six bits of a byte that continues a character, the byte lying in the given
range. -/
def continuation? (low high : Nat) (b : UInt8) : Option Nat :=
  if low ≤ b.toNat ∧ b.toNat ≤ high then some (b.toNat % 64) else none

def secondByteRange (n : Nat) : Nat × Nat :=
  if n = 0xE0 then (0xA0, 0xBF)
  else if n = 0xED then (0x80, 0x9F)
  else if n = 0xF0 then (0x90, 0xBF)
  else if n = 0xF4 then (0x80, 0x8F)
  else (0x80, 0xBF)

/-- Number of bytes behind the first byte `n` of a character, if `n` begins one. -/
def bytesAfter? (n : Nat) : Option Nat :=
  if n < 0x80 then some 0
  else if 0xC2 ≤ n ∧ n ≤ 0xDF then some 1
  else if 0xE0 ≤ n ∧ n ≤ 0xEF then some 2
  else if 0xF0 ≤ n ∧ n ≤ 0xF4 then some 3
  else none

/-- Reads the bytes that continue a character: its code point if all are there, and what is
left. -/
def continueChar (missing : Nat) (range : Nat × Nat) (code : Nat) :
    List UInt8 → Option Nat × List UInt8
  | [] => (if missing = 0 then some code else none, [])
  | b :: bytes =>
    if missing = 0 then (some code, b :: bytes)
    else
      match continuation? range.1 range.2 b with
      | some bits => continueChar (missing - 1) (0x80, 0xBF) (code * 64 + bits) bytes
      | none => (none, b :: bytes)

theorem continueChar_length (missing : Nat) (range : Nat × Nat) (code : Nat)
    (bytes : List UInt8) :
    (continueChar missing range code bytes).2.length ≤ bytes.length := by
  induction bytes generalizing missing range code with
  | nil => simp [continueChar]
  | cons b bytes ih =>
    unfold continueChar
    split
    · simp
    · split
      · have := ih (missing - 1) (0x80, 0xBF)
        simp only [List.length_cons]
        exact Nat.le_succ_of_le (this _)
      · simp

/-- The text that bytes are, each maximal ill-formed piece replaced. -/
def ofBytes : List UInt8 → Text
  | [] => []
  | b :: bytes =>
    match bytesAfter? b.toNat with
    | none => replacement :: ofBytes bytes
    | some 0 => Char.ofNat b.toNat :: ofBytes bytes
    | some (n + 1) =>
      let bits := b.toNat % Nat.pow 2 (5 - n)
      match _h : continueChar (n + 1) (secondByteRange b.toNat) bits bytes with
      | (some code, rest) => Char.ofNat code :: ofBytes rest
      | (none, rest) => replacement :: ofBytes rest
termination_by bytes => bytes.length
decreasing_by
  · simp
  · simp
  all_goals
    have := continueChar_length (n + 1) (secondByteRange b.toNat) bits bytes
    rw [_h] at this
    simp only [List.length_cons]
    exact Nat.lt_succ_of_le this

end Doctype.Text
