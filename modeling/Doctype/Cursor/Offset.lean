import Doctype.Cursor.Step
import Doctype.Markup.Offset

/-!
A cursor by byte offsets. A reader takes slices of the text at the offset that it keeps and
adds the bytes of what it read: of one character after the other, of a mark, up to a character
that is searched for, or with the two quotation marks of a literal. It has no answer where a
slice is not there.
-/

namespace Doctype

/-- Reads a text by an offset in it; without an answer where a slice is missing. -/
abbrev OffsetReader (α : Type) := ExceptT Lexer.Error (StateT Nat Option) α

namespace OffsetReader

variable {α : Type}

/-- What is read at an offset, and the offset behind it. -/
def runAt (reader : OffsetReader α) (pos : Nat) : Option (Except Lexer.Error α × Nat) :=
  reader.run.run pos

def ofOption (a? : Option α) : OffsetReader α :=
  ExceptT.lift (StateT.lift a?)

def fail (fault : Lexer.Fault) : OffsetReader α := do
  throw ⟨fault, ← get⟩

/-! ### Readers -/

variable (input : Text)

def left : OffsetReader Text := do
  ofOption (input.from? (← get))

/-- Skips blanks one after the other and counts their bytes. -/
def skipBlanks : OffsetReader Nat := do
  let start ← get
  let stop ← ofOption (Markup.passBlanksAt input start)
  set stop
  return stop - start

/-- At least one blank, or the end of the text. -/
def requireBlanks (context : Text) : OffsetReader Unit := do
  let bytes ← skipBlanks input
  let pos ← get
  if bytes = 0 ∧ pos < Text.size input then fail (.blankRequired context)

def eat (mark : Text) : OffsetReader Bool := do
  if mark.isPrefixOf (← left input) then
    modify (· + Text.size mark)
    return true
  else return false

/-- A keyword, if it stands here and no name character follows. -/
def eatKeyword (keyword : Text) : OffsetReader Bool := do
  let rest ← left input
  if keyword.isPrefixOf rest then
    if Text.startsNameChar (← ofOption (rest.from? (Text.size keyword))) then return false
    else
      modify (· + Text.size keyword)
      return true
  else return false

def char (expected : Char) : OffsetReader Unit := do
  match (← left input).head? with
  | some c =>
    if c = expected then modify (· + c.utf8Size) else fail (.expectedChar expected (some c))
  | none => fail (.expectedChar expected none)

def name : OffsetReader (Option Text) := do
  match ← ofOption (Markup.nameAt input (← get)) with
  | some (n, stop) =>
    set stop
    return some n
  | none => return none

def nmtoken : OffsetReader (Option Text) := do
  let rest ← left input
  let stop := (Text.findChar? (fun c => !isNameChar c) rest).getD (Text.size rest)
  if stop = 0 then return none
  else
    modify (· + stop)
    return some (← ofOption (rest.upTo? stop))

/-- A quoted literal: the quotation marks have one byte each. -/
def quoted : OffsetReader Text := do
  match (← left input).head? with
  | some q =>
    if Lexer.isQuote q then
      let rest ← ofOption ((← left input).from? 1)
      match Text.find? [q] rest with
      | some stop =>
        modify (· + (stop + 2))
        ofOption (rest.upTo? stop)
      | none => fail .unterminatedLiteral
    else fail .expectedLiteral
  | none => fail .expectedLiteral

def systemId : OffsetReader ExternalId := do
  requireBlanks input "after 'SYSTEM'"
  let system ← quoted input
  return ⟨none, some system⟩

/-- The identifier behind the keyword `PUBLIC`. Blanks that no literal follows are given
back. -/
def publicId (publicAlone : Bool) : OffsetReader ExternalId := do
  requireBlanks input "after 'PUBLIC'"
  let name := ExternalId.normalizePublic (← quoted input)
  let behind ← get
  let bytes ← skipBlanks input
  if 0 < bytes ∧ Lexer.startsQuoted (← left input) then
    let system ← quoted input
    return ⟨some name, some system⟩
  else
    set (min behind (Text.size input))
    if publicAlone then return ⟨some name, none⟩ else fail .systemLiteralRequired

def externalId (publicAlone : Bool) : OffsetReader ExternalId := do
  if ← eatKeyword input "SYSTEM" then systemId input
  else if ← eatKeyword input "PUBLIC" then publicId input publicAlone
  else fail .expectedExternalId

end OffsetReader

namespace Cursor

def Step.reader (input : Text) : Step → OffsetReader Answer
  | .skipBlanks => .bytes <$> OffsetReader.skipBlanks input
  | .requireBlanks context => (fun _ => .done) <$> OffsetReader.requireBlanks input context
  | .eat mark => .ofFound <$> OffsetReader.eat input mark
  | .eatKeyword keyword => .ofFound <$> OffsetReader.eatKeyword input keyword
  | .expectChar expected => (fun _ => .done) <$> OffsetReader.char input expected
  | .name => .ofText? <$> OffsetReader.name input
  | .nmtoken => .ofText? <$> OffsetReader.nmtoken input
  | .quoted => .text <$> OffsetReader.quoted input
  | .externalId publicAlone => .id <$> OffsetReader.externalId input publicAlone
  | .seek n => do
    set (min n (Text.size input))
    return .done

/-- What a step answers at an offset, and the offset where it goes. -/
def performAt (input : Text) (s : Step) (pos : Nat) : Option (Answer × Nat) :=
  ((s.reader input).runAt pos).map fun p => (.ofRead id p.1, p.2)

end Cursor
end Doctype
