import Doctype.ExternalId

/-!
The right-hand side of an entity declaration: a literal, or an external identifier that may
name a notation.
-/

namespace Doctype.Entity

inductive Definition
  | literal (value : Text)
  | external (id : ExternalId) (notationName : Option Text)
  deriving DecidableEq

namespace Definition

/-- The notation of an unparsed entity, which is optional and is set off by blanks. -/
def readNotation : Lexer (Option Text) := fun t =>
  match Text.startsBlank t, Lexer.keyword? "NDATA" (Text.skipBlanks t) with
  | true, some t => do
    let (_, t) ← Lexer.requireBlanks "after 'NDATA'" t
    match Text.name? t with
    | some (name, t) => return (some name, t)
    | none => throw ⟨.expectedNotationName, t⟩
  | _, _ => return (none, t)

def read : Lexer Definition := fun t =>
  if Lexer.startsQuoted t then do
    let (value, t) ← Lexer.quoted t
    return (.literal value, t)
  else do
    let (id, t) ← ExternalId.read false t
    let (notationName, t) ← readNotation t
    return (.external id notationName, t)

/-- The definition that a text is, blanks around it aside. -/
def parse (t : Text) : Except Lexer.Error Definition :=
  Lexer.whole read t

end Definition
end Doctype.Entity
