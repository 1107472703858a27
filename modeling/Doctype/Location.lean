import Doctype.File.Path
import Doctype.Url

/-!
Where a text comes from: a local path or a URL. A system identifier is a reference that is
taken relative to the location of the text that holds it.
-/

namespace Doctype

/-- A local path, or a URL of any scheme but `file`. -/
inductive Location
  | path (path : Text)
  | url (url : Url)
  deriving DecidableEq

namespace Location

inductive Fault
  | url (fault : Url.Fault)
  | notLocal (url : Url)
  deriving DecidableEq

def print : Location → Text
  | path p => p
  | url u => u.print

/-- A URL as a location: the scheme `file` means a local path. -/
def ofUrl (u : Url) : Except Fault Location :=
  if u.scheme = "file" then
    match u.localPath? with
    | some p => .ok (path p)
    | none => .error (.notLocal u)
  else .ok (url u)

/-- A text as a URL, unless its scheme has one letter, which is then a drive. -/
def absoluteUrl? (t : Text) : Option Url :=
  match Url.parse t with
  | .ok u => if 1 < u.scheme.length then some u else none
  | .error _ => none

/-- The location that a text names by itself; what is no URL is a path. -/
def parse (t : Text) : Except Fault Location :=
  match absoluteUrl? t with
  | some u => ofUrl u
  | none => .ok (path t)

/-- The location that a reference means in a text from `base`. -/
def resolve (base : Location) (reference : Text) : Except Fault Location :=
  match absoluteUrl? reference with
  | some u => ofUrl u
  | none =>
    match base with
    | path p => .ok (path (File.join ((File.parent? p).getD []) reference))
    | url u =>
      match u.join reference with
      | .ok u => ofUrl u
      | .error fault => .error (.url fault)

end Location
end Doctype
