import Doctype.Text

/-!
What is known about files: the text that each path reads as, or why it cannot be read. A tree
of directories with the contents of its files tells this for every path (`Tree.read`); each
name of a path is looked up in the directory that the names before it lead to.
-/

namespace Doctype.File

inductive Failure
  | missing
  | isDirectory
  | notDirectory
  | nameTooLong
  | nulInName
  | permissionDenied
  | notUtf8
  | other (message : Text)
  deriving DecidableEq

def Failure.message : Failure → Text
  | missing => "No such file or directory (os error 2)"
  | isDirectory => "Is a directory (os error 21)"
  | notDirectory => "Not a directory (os error 20)"
  | nameTooLong => "File name too long (os error 36)"
  | nulInName => "file name contained an unexpected NUL byte"
  | permissionDenied => "Permission denied (os error 13)"
  | notUtf8 => "stream did not contain valid UTF-8"
  | other message => message

def decode (bytes : ByteArray) : Except Failure Text :=
  match String.fromUTF8? bytes with
  | some s => .ok s.toList
  | none => .error .notUtf8

/-- What is known of a path: its text, the failure to read it, or nothing yet. -/
inductive Reading
  | text (text : Text)
  | failed (failure : Failure)
  | unknown

end File

abbrev Files := Text → File.Reading

namespace File

/-- The files of a working directory: the names that lead to each one and its bytes. -/
abbrev Tree := List (List Text × ByteArray)

/-- Where the names of a path have led so far. -/
inductive Place
  | directory (names : List Text)
  | file (bytes : ByteArray)
  | outside

namespace Tree

def put (tree : Tree) (names : List Text) (bytes : ByteArray) : Tree :=
  (names, bytes) :: tree.filter fun (ns, _) => ns ≠ names

/-- The names that lead to a path of the working directory, without those that only stay or
step back. -/
def names (path : Text) : List Text :=
  (Text.splitBy (· = '/') path).foldl
    (fun (names : List Text) (name : Text) =>
      if name.isEmpty || name = "." then names
      else if name = ".." then names.dropLast
      else names ++ [name])
    []

/-- The tree of files at paths of the working directory; of two at one place the later one
counts. -/
def ofFiles (files : List (Text × ByteArray)) : Tree :=
  files.foldl (fun tree (path, bytes) => tree.put (names path) bytes) []

def child (tree : Tree) (names : List Text) : Except Failure Place :=
  match tree.lookup names with
  | some bytes => .ok (.file bytes)
  | none => if tree.any fun (ns, _) => names.isPrefixOf ns then .ok (.directory names)
    else .error .missing

def step (tree : Tree) (place : Place) (name : Text) : Except Failure Place :=
  let isHere := name.isEmpty || name = "."
  match place with
  | .file _ => .error .notDirectory
  | .outside =>
    if isHere || name = ".." then .ok .outside
    else .error (if 255 < Text.size name then .nameTooLong else .missing)
  | .directory names =>
    if isHere then .ok place
    else if name = ".." then
      if names.isEmpty then .ok .outside else .ok (.directory names.dropLast)
    else if 255 < Text.size name then .error .nameTooLong
    else tree.child (names ++ [name])

def walk (tree : Tree) (place : Place) (names : List Text) : Except Failure Place :=
  names.foldlM tree.step place

def checkPath (path : Text) : Except Failure Unit :=
  if path.contains '\x00' then .error .nulInName
  else if path.isEmpty then .error .missing
  else if 4096 ≤ Text.size path then .error .nameTooLong
  else .ok ()

def origin (path : Text) : Place :=
  if path.head? = some '/' then .outside else .directory []

def bytes (tree : Tree) (path : Text) : Except Failure ByteArray := do
  checkPath path
  match ← tree.walk (origin path) (Text.splitBy (· = '/') path) with
  | .file bytes => return bytes
  | _ => throw .isDirectory

def read (tree : Tree) : Files := fun path =>
  match tree.bytes path >>= decode with
  | .ok text => .text text
  | .error failure => .failed failure

/-- The place in which a path would make a file, and the name of that file. A path that ends in
a slash means a directory, whether there is one or not. -/
def target (tree : Tree) (path : Text) : Except Failure (Place × Text) := do
  checkPath path
  let back := path.reverse.dropWhile (· = '/')
  let name := (back.takeWhile (· ≠ '/')).reverse
  let place ← tree.walk (origin path)
    (Text.splitBy (· = '/') (back.dropWhile (· ≠ '/')).reverse)
  match place with
  | .file _ => throw .notDirectory
  | _ =>
    if path.getLast? = some '/' || name = "." || name = ".." then throw .isDirectory
    match tree.step place name with
    | .ok (.file _) => return (place, name)
    | .ok _ => throw .isDirectory
    | .error .missing => return (place, name)
    | .error failure => throw failure

def write (tree : Tree) (path : Text) (bytes : ByteArray) : Except Failure Tree := do
  match ← tree.target path with
  | (.directory names, name) => return tree.put (names ++ [name]) bytes
  | _ => return tree

end Tree
end Doctype.File
