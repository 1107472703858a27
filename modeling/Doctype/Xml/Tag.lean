import Doctype.Text.Utf8

/-!
XML as a list of tags and its indented form. Every tag begins a line of its own, two spaces per
level, but nothing is put around text. A writer takes the chunks one by one until it has no
more room.
-/

namespace Doctype.Xml

/-- A tag with its attributes, or text between tags. -/
inductive Tag
  | declaration
  | start (name : Text) (attributes : List (Text × Text))
  | empty (name : Text) (attributes : List (Text × Text))
  | close (name : Text)
  | text (text : Text)
  deriving DecidableEq

def escapeChar : Char → Text
  | '<' => "&lt;"
  | '>' => "&gt;"
  | '&' => "&amp;"
  | '\'' => "&apos;"
  | '"' => "&quot;"
  | c => [c]

def escape (t : Text) : Text :=
  t.flatMap escapeChar

def printAttribute : Text × Text → Text
  | (name, value) => ' ' :: name ++ "=\"".toList ++ escape value ++ ['"']

namespace Tag

def print : Tag → Text
  | declaration => "<?xml version=\"1.0\" encoding=\"UTF-8\"?>"
  | start name attributes => '<' :: name ++ attributes.flatMap printAttribute ++ ['>']
  | empty name attributes => '<' :: name ++ attributes.flatMap printAttribute ++ "/>".toList
  | close name => "</".toList ++ name ++ ['>']
  | text t => escape t

def element (name : Text) (attributes : List (Text × Text)) (t : Text) : List Tag :=
  [start name attributes, text t, close name]

end Tag

/-- What the next tag depends on: how many elements are open, and whether a line may be
broken. -/
structure Layout where
  depth : Nat
  breaks : Bool
  deriving DecidableEq

namespace Layout

def initial : Layout :=
  ⟨0, false⟩

/-- A new line, indented, if the layout has one. -/
def lineBreak (l : Layout) : Text :=
  if l.breaks then '\n' :: List.replicate (2 * l.depth) ' ' else []

/-- What is written for a tag, and the layout behind it. -/
def place (l : Layout) (tag : Tag) : Text × Layout :=
  match tag with
  | .text _ => (tag.print, { l with breaks := false })
  | .start _ _ => (l.lineBreak ++ tag.print, ⟨l.depth + 1, true⟩)
  | .close _ =>
    let outer : Layout := { l with depth := l.depth - 1 }
    (outer.lineBreak ++ tag.print, { outer with breaks := true })
  | _ => (l.lineBreak ++ tag.print, { l with breaks := true })

end Layout

/-- What is written for each tag, behind the reversed chunks `done`. -/
def chunksFrom (done : List Text) (l : Layout) : List Tag → List Text
  | [] => done.reverse
  | tag :: tags =>
    let (chunk, l) := l.place tag
    chunksFrom (chunk :: done) l tags

def chunks (tags : List Tag) : List Text :=
  chunksFrom [] .initial tags

/-- The written form of a document, which ends in a line feed. -/
def print (tags : List Tag) : Text :=
  (chunks tags).flatten ++ ['\n']

/-- A writer that has taken some bytes and has room for a number of further ones. -/
structure Sink where
  taken : Array UInt8
  room : Nat

namespace Sink

/-- Writes a text as far as there is room, and tells whether all of it was taken. -/
def put (s : Sink) (t : Text) : Sink × Bool :=
  let bytes := Text.toBytes t
  let count := min bytes.length s.room
  (⟨s.taken ++ bytes.take count, s.room - count⟩, bytes.length ≤ s.room)

end Sink
end Doctype.Xml
