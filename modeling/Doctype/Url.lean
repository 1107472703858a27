import Doctype.Text.Blank
import Doctype.Url.Host
import Doctype.Url.Path

/-!
URLs: reading one, alone or relative to another, and writing it in the normal form of the
standard, with scheme and host in lower case, the port left out if it is the scheme's own, dot
segments resolved and characters percent-encoded.
-/

namespace Doctype

/-- Who serves a resource: the user information with its at sign, the host, and the port if it
is not the scheme's own. -/
structure Url.Authority where
  userinfo : Text
  host : Text
  port : Option Nat
  deriving DecidableEq

/-- A URL in normal form, each part without its delimiter. -/
structure Url where
  scheme : Text
  authority : Option Url.Authority
  path : Text
  query : Option Text
  fragment : Option Text
  deriving DecidableEq

namespace Url

def schemeKind (scheme : Text) : SchemeKind :=
  let scheme := String.ofList scheme
  if scheme = "file" then .file
  else if ["http", "https", "ws", "wss", "ftp"].contains scheme then .special
  else .other

def defaultPort? (scheme : Text) : Option Nat :=
  [("http", 80), ("https", 443), ("ws", 80), ("wss", 443), ("ftp", 21)].lookup
    (String.ofList scheme)

/-- Whether nothing can be relative to the URL, as it has neither an authority nor a path of
segments. -/
def isOpaque (u : Url) : Bool :=
  u.authority.isNone && u.path.head? ≠ some '/'

def Authority.print (a : Authority) : Text :=
  "//" ++ a.userinfo ++ a.host ++ match a.port with
    | some port => ':' :: Text.decimal port
    | none => []

/-- What stands in front of the path; a path that begins with two slashes must not look like an
authority. -/
def printHead (u : Url) : Text :=
  u.scheme ++ ":" ++ match u.authority with
    | some a => a.print
    | none => if ['/', '/'].isPrefixOf u.path then "/." else []

def printPart (delimiter : Char) : Option Text → Text
  | some part => delimiter :: part
  | none => []

def print (u : Url) : Text :=
  u.printHead ++ u.path ++ printPart '?' u.query ++ printPart '#' u.fragment

/-- Text that is read as a URL, in its parts: up to the first question mark or number sign, and
the query and the fragment as written. -/
def splitQuery (t : Text) : Text × Option Text × Option Text :=
  let front := t.takeWhile fun c => c ≠ '?' && c ≠ '#'
  match t.dropWhile fun c => c ≠ '?' && c ≠ '#' with
  | '?' :: rest =>
    match rest.dropWhile (· ≠ '#') with
    | _ :: fragment => (front, some (rest.takeWhile (· ≠ '#')), some fragment)
    | [] => (front, some rest, none)
  | _ :: fragment => (front, none, some fragment)
  | [] => (front, none, none)

def withTail (u : Url) (query fragment : Option Text) : Url :=
  { u with
    query := query.map (percentEncode (inQuerySet (schemeKind u.scheme).isSpecial))
    fragment := fragment.map (percentEncode inFragmentSet) }

def scheme? (t : Text) : Option (Text × Text) :=
  let isSchemeChar (c : Char) : Bool := c.isAlphanum || c = '+' || c = '-' || c = '.'
  match t.head?, t.dropWhile isSchemeChar with
  | some c, ':' :: rest =>
    if c.isAlpha then some ((t.takeWhile isSchemeChar).map Char.toLower, rest) else none
  | _, _ => none

def userinfo (t : Text) : Text :=
  let name := percentEncode inUserinfoSet (t.takeWhile (· ≠ ':'))
  let password := percentEncode inUserinfoSet ((t.dropWhile (· ≠ ':')).drop 1)
  if name.isEmpty && password.isEmpty then []
  else if password.isEmpty then name ++ ['@']
  else name ++ ':' :: password ++ ['@']

/-- The user information in front of the last at sign of an authority, and what is behind
it. -/
def splitUserinfo? (t : Text) : Option (Text × Text) :=
  let back := t.reverse
  match back.dropWhile (· ≠ '@') with
  | _ :: info => some (info.reverse, (back.takeWhile (· ≠ '@')).reverse)
  | [] => none

/-- The host of an authority, which ends at the first colon outside brackets, and the rest. -/
def splitHost (inBrackets : Bool) (host : Text) : Text → Text × Text
  | [] => (host.reverse, [])
  | c :: t =>
    if c = ':' ∧ ¬inBrackets then (host.reverse, c :: t)
    else splitHost (if c = '[' then true else if c = ']' then false else inBrackets)
      (c :: host) t

/-- A port, left out if there are no digits or it is the scheme's own. -/
def readPort (scheme t : Text) : Except Fault (Option Nat) :=
  if t.isEmpty then .ok none
  else
    match Text.digits? 10 t with
    | some n =>
      if 65535 < n then .error .invalidPort
      else .ok (if defaultPort? scheme = some n then none else some n)
    | none => .error .invalidPort

/-- The authority that a text without slashes writes, and what is left of it: a port ends at a
backslash. An at sign with nothing around it is an authority if nothing at all follows it, as
`isLast` tells. -/
def readAuthority (scheme t : Text) (isLast : Bool) : Except Fault (Authority × Text) := do
  let isSpecial := (schemeKind scheme).isSpecial
  if t = ['@'] && !isLast then throw .emptyHost
  let (info, rest) := (splitUserinfo? t).getD ([], t)
  let info := userinfo info
  let (name, tail) := splitHost false [] rest
  if name.isEmpty && (isSpecial || !tail.isEmpty || !info.isEmpty) then throw .emptyHost
  let host ← if isSpecial then Host.readSpecial name else Host.readOpaque name
  let port ← readPort scheme ((tail.drop 1).takeWhile (· ≠ '\\'))
  return (⟨info, host, port⟩, (tail.drop 1).dropWhile (· ≠ '\\'))

/-- The path that follows an authority; a special scheme always has one. -/
def pathAfterAuthority (kind : SchemeKind) (t : Text) : Text :=
  match t with
  | [] => if kind.isSpecial then Path.extend kind ['/'] [] else []
  | c :: rest =>
    if kind.isSlash c then Path.extend kind ['/'] rest else Path.extend kind ['/'] t

def readAfterSlashes (scheme t : Text) : Except Fault Url := do
  let (front, query, fragment) := splitQuery t
  let kind := schemeKind scheme
  let path := front.dropWhile (! kind.isSlash ·)
  let isLast := path.isEmpty && query.isNone && fragment.isNone
  let (authority, rest) ← readAuthority scheme (front.takeWhile (! kind.isSlash ·)) isLast
  let path := pathAfterAuthority kind (rest ++ path)
  return withTail ⟨scheme, some authority, path, none, none⟩ query fragment

def dropSlash? (t : Text) : Option Text :=
  match t.dropWhile isIgnored with
  | c :: t => if SchemeKind.isSlash .file c then some t else none
  | [] => none

/-- The URL of the scheme `file` whose path begins with a slash and what `t` writes. A drive
letter takes the place of the host. -/
def fileUrl (host t : Text) (query fragment : Option Text) : Url :=
  let draft := Path.build .file ['/'] t
  let host := if draft.hasDrive then [] else host
  withTail ⟨"file", some ⟨[], host, none⟩, Path.mergeFirstSlashes draft.path, none, none⟩
    query fragment

/-- The host of a URL of the scheme `file`; the local one is not written. -/
def readFileHost (t : Text) : Except Fault Text := do
  if t.isEmpty then return []
  let host ← Host.readSpecial t
  return if host = "localhost" then [] else host

/-- The URL of the scheme `file` that follows its colon, with the characters that do not count:
a path, or a host and a path behind two slashes. Without a host, the slash that begins the path
counts as a segment. -/
def readFile (t : Text) : Except Fault Url := do
  let (front, query, fragment) := splitQuery t
  let query := query.map dropIgnored
  let fragment := fragment.map dropIgnored
  match dropSlash? front with
  | none => return fileUrl [] front query fragment
  | some rest =>
    match dropSlash? rest with
    | none => return fileUrl [] rest query fragment
    | some rest =>
      let isSlash := SchemeKind.isSlash .file
      let name := dropIgnored (rest.takeWhile (! isSlash ·))
      let path := rest.dropWhile (! isSlash ·)
      if isDriveLetter name then return fileUrl [] rest query fragment
      let host ← readFileHost name
      return fileUrl host (if host.isEmpty then path else path.drop 1) query fragment

def readOther (scheme t : Text) : Except Fault Url :=
  match t with
  | '/' :: '/' :: rest => readAfterSlashes scheme rest
  | _ =>
    let (front, query, fragment) := splitQuery t
    let path :=
      match front with
      | '/' :: rest => Path.extend .other ['/'] rest
      | _ => percentEncode isControl front
    .ok (withTail ⟨scheme, none, path, none, none⟩ query fragment)

/-- The path of `base` with its last segment replaced by the path that `t` writes. -/
def siblingPath (base : Url) (t : Text) : Text :=
  let kind := schemeKind base.scheme
  let front := Path.pop kind base.path
  let front := if front.isEmpty && (kind.isSpecial || !t.isEmpty) then ['/'] else front
  Path.extend kind front t

def readRelative (base : Url) (t : Text) : Except Fault Url :=
  let (front, query, fragment) := splitQuery t
  let isSlash (c : Char) : Bool := c = '/' || c = '\\'
  match front with
  | [] =>
    match query with
    | some _ => .ok (withTail base query fragment)
    | none => .ok { withTail base none fragment with query := base.query }
  | a :: rest =>
    if isSlash a then
      match rest with
      | b :: after =>
        if isSlash b then
          let behind := if a = '/' ∧ b = '/' then t.drop 2 else t.dropWhile isSlash
          readAfterSlashes base.scheme behind
        else
          let path := Path.extend (schemeKind base.scheme) ['/'] (b :: after)
          .ok (withTail { base with path := path } query fragment)
      | [] =>
        .ok (withTail { base with path := Path.extend (schemeKind base.scheme) ['/'] [] }
          query fragment)
    else .ok (withTail { base with path := siblingPath base front } query fragment)

/-- A URL behind its scheme, with the characters that do not count. A special scheme may lack
its slashes, which are then those of a base with the same scheme. -/
def readWithScheme (base : Option Url) (scheme t : Text) : Except Fault Url :=
  match schemeKind scheme with
  | .file => readFile t
  | .other => readOther scheme (dropIgnored t)
  | .special =>
    let t := dropIgnored t
    let isSlash (c : Char) : Bool := c = '/' || c = '\\'
    let slashes := (t.takeWhile isSlash).length
    match base with
    | some base =>
      if slashes < 2 ∧ base.scheme = scheme then readRelative base t
      else readAfterSlashes scheme (t.dropWhile isSlash)
    | none => readAfterSlashes scheme (t.dropWhile isSlash)

/-- The URL that a text writes, relative to `base` if it has no scheme. Controls and spaces
around it do not count. -/
def readFrom (base : Option Url) (t : Text) : Except Fault Url :=
  let t := Text.trimBy (·.toNat ≤ 0x20) t
  match scheme? (dropIgnored t) with
  | some (scheme, _) => readWithScheme base scheme ((t.dropWhile (· ≠ ':')).drop 1)
  | none =>
    let t := dropIgnored t
    match base with
    | none => .error .relativeWithoutBase
    | some base =>
      if base.isOpaque && t.head? ≠ some '#' then .error .relativeToOpaque
      else readRelative base t

def parse (t : Text) : Except Fault Url :=
  readFrom none t

def join (base : Url) (reference : Text) : Except Fault Url :=
  readFrom (some base) reference

/-- The local path of a URL of the scheme `file`, if it names no host; a drive letter has a
slash behind it. -/
def localPath? (u : Url) : Option Text :=
  match u.authority with
  | some ⟨_, [], _⟩ =>
    let path := percentDecode u.path
    match path.reverse with
    | b :: a :: _ :: _ => if isDriveLetter [a, b] then some (path ++ ['/']) else some path
    | _ => some path
  | _ => none

end Url
end Doctype
