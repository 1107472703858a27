import Doctype.Url.Domain
import Doctype.Url.Percent

/-!
The hosts of URLs: domain names, addresses of version 4 and 6, and names that only a scheme of
its own understands. A host is kept in the form in which it is written.
-/

namespace Doctype.Url

inductive Fault
  | emptyHost
  | invalidDomain
  | invalidPort
  | invalidIpv4
  | invalidIpv6
  | invalidHostCharacter
  | relativeWithoutBase
  | relativeToOpaque
  deriving DecidableEq

def Fault.message : Fault → Text
  | emptyHost => "empty host"
  | invalidDomain => "invalid international domain name"
  | invalidPort => "invalid port number"
  | invalidIpv4 => "invalid IPv4 address"
  | invalidIpv6 => "invalid IPv6 address"
  | invalidHostCharacter => "invalid domain character"
  | relativeWithoutBase => "relative URL without a base"
  | relativeToOpaque => "relative URL with a cannot-be-a-base base"

namespace Host

/-- A number of a version 4 address in the base that its first characters tell; nothing behind
them is zero. -/
def ipv4Number? : Text → Option Nat
  | [] => none
  | '0' :: 'x' :: t => if t.isEmpty then some 0 else Text.digits? 16 t
  | '0' :: 'X' :: t => if t.isEmpty then some 0 else Text.digits? 16 t
  | ['0'] => some 0
  | '0' :: t => Text.digits? 8 t
  | t => Text.digits? 10 t

/-- The labels of a domain name, an empty one at the end aside. -/
def labels (domain : Text) : List Text :=
  let parts := Text.splitBy (· = '.') domain
  if 1 < parts.length ∧ parts.getLast? = some [] then parts.dropLast else parts

/-- Whether the last label makes a domain name an address. -/
def endsInNumber (domain : Text) : Bool :=
  match (labels domain).getLast? with
  | some last => (last ≠ [] && last.all (Text.isDigit 10)) || (ipv4Number? last).isSome
  | none => false

/-- The value of an address of up to four numbers, the last of which fills the remaining
bytes. -/
def ipv4Value? (numbers : List Nat) : Option Nat :=
  match numbers.reverse with
  | [] => none
  | last :: before =>
    if 4 < numbers.length ∨ before.any (255 < ·) ∨
      Nat.pow 256 (5 - numbers.length) ≤ last then none
    else some (before.reverse.zipIdx.foldl (fun v (n, i) => v + n * Nat.pow 256 (3 - i)) last)

def readIpv4 (domain : Text) : Except Fault Text :=
  match ((labels domain).mapM ipv4Number?).bind ipv4Value? with
  | some v =>
    .ok (Text.join ['.'] ([16777216, 65536, 256, 1].map fun d => Text.decimal (v / d % 256)))
  | none => .error .invalidIpv4

def ipv6Group? (t : Text) : Option Nat :=
  if t.length ≤ 4 then Text.digits? 16 t else none

/-- A decimal number up to 255 without leading zeros. -/
def byte? (t : Text) : Option Nat :=
  match Text.digits? 10 t with
  | some n => if n ≤ 255 ∧ (t.length = 1 ∨ t.head? ≠ some '0') then some n else none
  | none => none

/-- The two groups that a version 4 address at the end of a version 6 address fills. -/
def embeddedIpv4? (t : Text) : Option (List Nat) :=
  match (Text.splitBy (· = '.') t).mapM byte? with
  | some [a, b, c, d] => some [a * 256 + b, c * 256 + d]
  | _ => none

/-- Groups with colons between them; the last one may be a version 4 address if `isEnd`. -/
def ipv6Groups? (isEnd : Bool) (t : Text) : Option (List Nat) :=
  if t.isEmpty then some []
  else
    let parts := Text.splitBy (· = ':') t
    match parts.reverse with
    | [] => none
    | last :: before =>
      match before.reverse.mapM ipv6Group?, ipv6Group? last with
      | some groups, some group => some (groups ++ [group])
      | some groups, none => if isEnd then (embeddedIpv4? last).map (groups ++ ·) else none
      | none, _ => none

def splitGap? (before : Text) : Text → Option (Text × Text)
  | ':' :: ':' :: t => some (before.reverse, t)
  | c :: t => splitGap? (c :: before) t
  | [] => none

/-- The eight groups of a version 6 address; two colons stand for at least one group of
zero. -/
def ipv6Groups8? (t : Text) : Option (List Nat) :=
  match splitGap? [] t with
  | some (before, after) =>
    match ipv6Groups? false before, ipv6Groups? true after with
    | some left, some right =>
      if left.length + right.length ≤ 7 then
        some (left ++ List.replicate (8 - left.length - right.length) 0 ++ right)
      else none
    | _, _ => none
  | none =>
    match ipv6Groups? true t with
    | some groups => if groups.length = 8 then some groups else none
    | none => none

def leadingZeros (groups : List Nat) : Nat :=
  (groups.takeWhile (· = 0)).length

/-- The first of the longest runs of zeros: where it begins and how long it is. -/
def longestZeros (groups : List Nat) : Nat × Nat :=
  (List.range groups.length).foldl (fun best i =>
    let n := leadingZeros (groups.drop i)
    if best.2 < n then (i, n) else best) (0, 0)

def printGroup (n : Nat) : Text :=
  Nat.toDigits 16 n

/-- A version 6 address in brackets, its longest run of two or more zeros left out. -/
def printIpv6 (groups : List Nat) : Text :=
  let (start, length) := longestZeros groups
  let print (gs : List Nat) : Text := Text.join [':'] (gs.map printGroup)
  if 2 ≤ length then
    "[" ++ print (groups.take start) ++ "::" ++ print (groups.drop (start + length)) ++ "]"
  else "[" ++ print groups ++ "]"

def readIpv6 (t : Text) : Except Fault Text :=
  match t with
  | '[' :: t =>
    if t.getLast? = some ']' then
      match ipv6Groups8? t.dropLast with
      | some groups => .ok (printIpv6 groups)
      | none => .error .invalidIpv6
    else .error .invalidIpv6
  | _ => .error .invalidIpv6

def isForbiddenInHost (c : Char) : Bool :=
  c = '\x00' || " \t\n\r#/:<>?@[\\]^|".toList.contains c

def readSpecial (t : Text) : Except Fault Text :=
  if t.head? = some '[' then readIpv6 t
  else
    match Domain.toAscii? (percentDecode t) with
    | none => .error .invalidDomain
    | some domain =>
      if domain.isEmpty then .error .emptyHost
      else if endsInNumber domain then readIpv4 domain
      else .ok domain

def readOpaque (t : Text) : Except Fault Text :=
  if t.head? = some '[' then readIpv6 t
  else if t.any isForbiddenInHost then .error .invalidHostCharacter
  else .ok (percentEncode isControl t)

end Host
end Doctype.Url
