import Doctype.Text.Number
import Doctype.Text.Utf8

/-!
Percent-encoding: the characters of a set are written as their bytes, two hexadecimal digits
each. The sets grow from the controls, which are always written so, to those of each part of a
URL.
-/

namespace Doctype.Url

def hexDigit (n : Nat) : Char :=
  if n < 10 then Char.ofNat ('0'.toNat + n) else Char.ofNat ('A'.toNat + n - 10)

def encodeByte (b : UInt8) : Text :=
  ['%', hexDigit (b.toNat / 16), hexDigit (b.toNat % 16)]

def percentEncode (inSet : Char → Bool) (t : Text) : Text :=
  t.flatMap fun c => if inSet c then (String.utf8EncodeChar c).flatMap encodeByte else [c]

def hexValue? (b : UInt8) : Option Nat :=
  Text.digit? 16 (Char.ofNat b.toNat)

/-- Bytes with the encoded ones decoded; a percent sign without two digits stays. -/
def decodeBytes : List UInt8 → List UInt8
  | b :: high :: low :: bytes =>
    match hexValue? high, hexValue? low with
    | some n, some m =>
      if b.toNat = '%'.toNat then UInt8.ofNat (n * 16 + m) :: decodeBytes bytes
      else b :: decodeBytes (high :: low :: bytes)
    | _, _ => b :: decodeBytes (high :: low :: bytes)
  | b :: bytes => b :: decodeBytes bytes
  | [] => []

def percentDecode (t : Text) : Text :=
  Text.ofBytes (decodeBytes (Text.toBytes t))

def isControl (c : Char) : Bool :=
  c.toNat < 0x20 || 0x7E < c.toNat

def inFragmentSet (c : Char) : Bool :=
  isControl c || " \"<>`".toList.contains c

def inQuerySet (isSpecial : Bool) (c : Char) : Bool :=
  isControl c || " \"#<>".toList.contains c || (isSpecial && c = '\'')

def inPathSet (c : Char) : Bool :=
  inFragmentSet c || "#?\x7b\x7d".toList.contains c

def inUserinfoSet (c : Char) : Bool :=
  inPathSet c || "/:;=@[\\]^|".toList.contains c

end Doctype.Url
