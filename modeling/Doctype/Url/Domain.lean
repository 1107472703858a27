import Doctype.Text.Utf8
import Doctype.Unicode.Composition
import Doctype.Unicode.Data.Mapping
import Doctype.Unicode.Direction
import Doctype.Unicode.Joining
import Doctype.Url.Punycode

/-!
Domain names in ASCII. Characters are replaced, left out or refused one by one, the text is
composed and cut into labels at its dots, and a label with characters outside ASCII is written
in Punycode behind the mark `xn--`. A label that has the mark already must be one that this
would write. A name in plain ASCII is only put in lower case.
-/

namespace Doctype.Url.Domain

open Unicode

/-- What becomes of a run of code points: all stay, none is allowed, all are left out,
replaced, or moved up or down, or every other one is replaced by the one behind it. -/
inductive Fate
  | stays
  | refused
  | leftOut
  | replaced (codes : List Nat)
  | raised (distance : Nat)
  | lowered (distance : Nat)
  | alternating

def Fate.read : Text → Fate
  | 'V' :: _ => stays
  | 'I' :: _ => leftOut
  | 'M' :: t => replaced (Table.readCodes t)
  | 'S' :: t => raised (Text.ofDigits 16 t)
  | 'N' :: t => lowered (Text.ofDigits 16 t)
  | 'A' :: _ => alternating
  | _ => refused

def fates : Table Fate :=
  Table.read Fate.read mappingRuns

/-- What a code point at a place of its run is replaced by, if it is allowed. -/
def Fate.codes? (n place : Nat) : Fate → Option (List Nat)
  | stays => some [n]
  | refused => none
  | leftOut => some []
  | replaced codes => some codes
  | raised distance => some [n + distance]
  | lowered distance => some [n - distance]
  | alternating => some [if place % 2 = 0 then n + 1 else n]

def mapChar? (c : Char) : Option Text :=
  match fates.find? c.toNat with
  | some (fate, place) => (fate.codes? c.toNat place).map (·.map Char.ofNat)
  | none => none

def map? (t : Text) : Option Text :=
  (t.mapM mapChar?).map fun parts => normalize parts.flatten

/-- Whether the characters of a text stay as they are, each alone and all together. -/
def isMapped (t : Text) : Bool :=
  t.all (fun c => mapChar? c = some [c]) && normalize t = t

def isForbidden (c : Char) : Bool :=
  c.toNat ≤ 0x20 || c.toNat = 0x7F || c = Text.replacement ||
    "%#/:<>?@[\\]^|".toList.contains c

def isAscii (t : Text) : Bool :=
  t.all (·.toNat < 0x80)

def mark : Text :=
  "xn--"

def joinsAs (a b : Joining) (t : Text) : Bool :=
  match (t.map joining).dropWhile (· = .transparent) with
  | j :: _ => j = a || j = b
  | [] => false

/-- Whether a joiner may follow the reversed text `before` and precede `after`: a virama is in
front of it, or it keeps apart two letters that would join. -/
def allowsJoiner (isApart : Bool) (before after : Text) : Bool :=
  match before with
  | [] => false
  | c :: _ =>
    isVirama c || (isApart && joinsAs .left .dual before && joinsAs .right .dual after)

def allowsJoiners (before : Text) : Text → Bool
  | [] => true
  | c :: t =>
    (if c = '\u200C' then allowsJoiner true before t
      else if c = '\u200D' then allowsJoiner false before t
      else true) && allowsJoiners (c :: before) t

def isLabel (label : Text) : Bool :=
  isAscii label ||
    (label.length ≤ 1000 && allowsJoiners [] label &&
      match label with
      | c :: _ => !isMark c
      | [] => true)

/-- The label in Unicode that a label without capitals stands for, if it may be part of a
domain name. -/
def labelToUnicode? (label : Text) : Option Text :=
  match Text.dropPrefix? mark label with
  | none => if isLabel label then some label else none
  | some code =>
    if isAscii code && code ≠ [] && code.getLast? ≠ some '-' && code.length ≤ 2000 then
      match Punycode.decode? code with
      | some label => if isMapped label && isLabel label then some label else none
      | none => none
    else none

def labelToAscii (label : Text) : Text :=
  if isAscii label then label else mark ++ Punycode.encode label

def keepsDirection (labels : List Text) : Bool :=
  !labels.any (·.any isRightToLeft) || labels.all fun label =>
    Direction.isLabel (label.map direction)

def isPlain (t : Text) : Bool :=
  isAscii t && (Text.splitBy (· = '.') (t.map Char.toLower)).all (! mark.isPrefixOf ·)

def labelsToAscii? (t : Text) : Option (List Text) := do
  let labels := Text.splitBy (· = '.') t
  let unicode ← labels.mapM labelToUnicode?
  if keepsDirection unicode then some (labels.map labelToAscii) else none

def toAscii? (t : Text) : Option Text :=
  match if isPlain t then some (t.map Char.toLower) else map? t with
  | none => none
  | some t =>
    if t.any isForbidden then none
    else if isPlain t then some t
    else (labelsToAscii? t).map (Text.join ['.'])

end Doctype.Url.Domain
