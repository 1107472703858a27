import Doctype.Url.Percent

/-!
The paths of URLs. Segments are added to a path one after the other; a segment of one dot adds
nothing and one of two dots takes the last segment away. Drive letters are kept where a path of
the `file` scheme begins with one. Tabs and line ends do not belong to what is written, but one
behind a drive letter sets it off from the rest of its segment.
-/

namespace Doctype.Url

/-- What the standard says about a scheme: `file`, another one that it knows, or any other. -/
inductive SchemeKind
  | file
  | special
  | other
  deriving DecidableEq

def SchemeKind.isSpecial (k : SchemeKind) : Bool :=
  k ≠ other

def SchemeKind.isSlash (k : SchemeKind) (c : Char) : Bool :=
  c = '/' || (k.isSpecial && c = '\\')

def isDriveLetter : Text → Bool
  | [a, b] => a.isAlpha && (b = ':' || b = '|')
  | _ => false

def isNormalDriveLetter : Text → Bool
  | [a, b] => a.isAlpha && b = ':'
  | _ => false

/-- Whether the text is a slash, a drive letter, and nothing that would belong to its
segment. -/
def startsWithDrive : Text → Bool
  | '/' :: a :: b :: t =>
    isDriveLetter [a, b] && match t with
      | [] => true
      | c :: _ => c = '/' || c = '\\' || c = '?' || c = '#'
  | _ => false

/-- A tab or a line end, which may stand anywhere in a URL and does not count. -/
def isIgnored (c : Char) : Bool :=
  c = '\t' || c = '\n' || c = '\r'

def dropIgnored (t : Text) : Text :=
  t.filter (! isIgnored ·)

namespace Path

def splitLast (path : Text) : Text × Text :=
  let back := path.reverse
  ((back.dropWhile (· ≠ '/')).reverse, (back.takeWhile (· ≠ '/')).reverse)

/-- The path without what is behind its last slash; a drive letter stays. -/
def pop (kind : SchemeKind) (path : Text) : Text :=
  let (front, last) := splitLast path
  if kind = .file ∧ isNormalDriveLetter last then path else front

/-- The path without its last segment, the path ending in a slash; the first slash stays, and
so does the slash behind a drive letter. -/
def shorten (kind : SchemeKind) (path : Text) : Text :=
  let bare := path.dropLast
  let (front, last) := splitLast bare
  if front.isEmpty ∨ startsWithDrive ('/' :: last ++ ['/']) then pop kind path
  else pop kind bare

def close (path : Text) : Text :=
  if path.getLast? = some '/' then path else path ++ ['/']

def isSingleDot (segment : Text) : Bool :=
  [".", "%2e", "%2E"].contains (String.ofList segment)

def isDoubleDot (segment : Text) : Bool :=
  ["..", "%2e%2e", "%2e%2E", "%2E%2e", "%2E%2E", "%2e.", "%2E.", ".%2e", ".%2E"].contains
    (String.ofList segment)

/-- The drive letter that a tab or a line end sets off in a segment, and what follows it. -/
def splitDrive? (segment : Text) : Option (Text × Text) :=
  match dropIgnored segment, (segment.dropWhile (· ≠ ':')).drop 1 with
  | a :: b :: c :: rest, behind :: _ =>
    if isNormalDriveLetter [a, b] && isIgnored behind then some ([a, b], c :: rest) else none
  | _, _ => none

/-- A path in the making, and whether it begins with a drive letter that is a segment of its
own. -/
structure Draft where
  path : Text
  hasDrive : Bool

def Draft.append (d : Draft) (t : Text) : Draft :=
  ⟨d.path ++ t, d.hasDrive⟩

/-- Adds the first segment of a path of the `file` scheme. A drive letter has a colon; one that
is set off becomes a segment before the rest. -/
def addFirst (d : Draft) (segment : Text) : Draft :=
  match splitDrive? segment with
  | some (drive, rest) => d.append (drive ++ '/' :: percentEncode inPathSet rest)
  | none =>
    let written := percentEncode inPathSet (dropIgnored segment)
    if isDriveLetter written then ⟨d.path ++ written.take 1 ++ [':'], true⟩
    else d.append written

/-- Adds a segment, and a slash if the segment had one behind it. -/
def add (kind : SchemeKind) (d : Draft) (segment : Text) (isClosed : Bool) : Draft :=
  let written := percentEncode inPathSet (dropIgnored segment)
  if isDoubleDot written then
    let path := shorten kind d.path
    ⟨if isClosed then close path else path, d.hasDrive⟩
  else if isSingleDot written then ⟨close d.path, d.hasDrive⟩
  else
    let d := if kind = .file ∧ d.path = ['/'] then addFirst d segment else d.append written
    if isClosed then d.append ['/'] else d

def addAll (kind : SchemeKind) (d : Draft) : List Text → Draft
  | [] => d
  | [segment] => add kind d segment false
  | segment :: segments => addAll kind (add kind d segment true) segments

def build (kind : SchemeKind) (path t : Text) : Draft :=
  addAll kind ⟨path, false⟩ (Text.splitBy kind.isSlash t)

/-- The path with no slash behind its first one, which holds for the scheme `file`. -/
def mergeFirstSlashes (path : Text) : Text :=
  '/' :: path.dropWhile (· = '/')

def extend (kind : SchemeKind) (path t : Text) : Text :=
  let path := (build kind path t).path
  if kind = .file then mergeFirstSlashes path else path

end Path
end Doctype.Url
