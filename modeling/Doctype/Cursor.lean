import Doctype.ExternalId

/-!
A place in a text. A step reads from there and moves the place behind what it read; a step that
fails leaves it where the fault arose. The place is kept as what is left of the text, so steps
that read stay between two characters. Only an offset asked for (`seek`) may lie inside a
character; errors tell that offset, and what is read next is the character behind.
-/

namespace Doctype

/-- A text, what is left of it, and how many bytes of the character in front of that are left
too. -/
structure Cursor where
  input : Text
  rest : Text
  inside : Nat

namespace Cursor

def start (input : Text) : Cursor :=
  ⟨input, input, 0⟩

def moveTo (c : Cursor) (rest : Text) : Cursor :=
  ⟨c.input, rest, 0⟩

def position (c : Cursor) : Nat :=
  Text.offset c.input c.rest - c.inside

def isAtEnd (c : Cursor) : Bool :=
  c.rest.isEmpty && c.inside = 0

/-- The place at byte offset `n`, or the end of the text if it is shorter. -/
def seek (c : Cursor) (n : Nat) : Cursor :=
  let rest := Text.dropBytes n c.input
  ⟨c.input, rest, if n < Text.size c.input then Text.offset c.input rest - n else 0⟩

theorem position_seek (c : Cursor) (n : Nat) :
    (c.seek n).position = min n (Text.size c.input) := by
  have h := Text.size_dropBytes_le n c.input
  simp only [seek, position, Text.offset]
  split <;> omega

def error (c : Cursor) (fault : Lexer.Fault) : Lexer.Error :=
  ⟨fault, c.position⟩

def read {α : Type} (lexer : Lexer α) (c : Cursor) : Except Lexer.Error α × Cursor :=
  match lexer c.rest with
  | .ok (a, rest) => (.ok a, c.moveTo rest)
  | .error f => (.error (f.toError c.input), c.moveTo f.rest)

/-- Reads what may be missing; nothing moves if it is. -/
def read? {α : Type} (reader : Text → Option (α × Text)) (c : Cursor) : Option α × Cursor :=
  match reader c.rest with
  | some (a, rest) => (some a, c.moveTo rest)
  | none => (none, c)

/-- Skips blanks and counts their bytes. -/
def skipBlanks (c : Cursor) : Nat × Cursor :=
  let rest := Text.skipBlanks c.rest
  (Text.offset c.rest rest, c.moveTo rest)

/-- Skips `mark` if it stands here. -/
def eat (mark : Text) (c : Cursor) : Bool × Cursor :=
  match Text.dropPrefix? mark c.rest with
  | some rest => (true, c.moveTo rest)
  | none => (false, c)

/-- Skips `keyword` if it stands here and no name character follows. -/
def eatKeyword (keyword : Text) (c : Cursor) : Bool × Cursor :=
  match Lexer.keyword? keyword c.rest with
  | some rest => (true, c.moveTo rest)
  | none => (false, c)

def name (c : Cursor) : Option Text × Cursor :=
  c.read? Text.name?

def nmtoken (c : Cursor) : Option Text × Cursor :=
  c.read? Text.nmtoken?

end Cursor
end Doctype
