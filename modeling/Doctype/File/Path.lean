import Doctype.Text

/-!
Paths of files: the directory that a path lies in, and a path taken relative to a directory.
Nothing is looked up and nothing is resolved; slashes and single dots that do not count are
skipped where a directory is told.
-/

namespace Doctype.File

def isAbsolute (path : Text) : Bool :=
  path.head? = some '/'

/-- The part of a path in front of its names: the slash of the root, or a single dot. -/
def head : Text → Text
  | '/' :: _ => ['/']
  | ['.'] => ['.']
  | '.' :: '/' :: _ => ['.']
  | _ => []

/-- The reversed text `back` of names, without the slashes, empty names and single dots that it
begins with. -/
def trimNames (back : Text) : Text :=
  match back with
  | '/' :: rest => trimNames rest
  | '.' :: '/' :: rest => trimNames rest
  | ['.'] => []
  | back => back

/-- The directory that a path lies in; the root and the empty path lie in none. -/
def parent? (path : Text) : Option Text :=
  let front := head path
  match trimNames (path.drop front.length).reverse with
  | [] => if front = ['.'] then some [] else none
  | back => some (front ++ (trimNames (back.dropWhile (· ≠ '/'))).reverse)

def join (directory path : Text) : Text :=
  if isAbsolute path || directory.isEmpty then path
  else if directory.getLast? = some '/' then directory ++ path
  else directory ++ '/' :: path

end Doctype.File
