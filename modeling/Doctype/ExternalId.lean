import Doctype.Lexer

/-!
External identifiers: a system identifier, a public identifier, or both. An entity needs a
system identifier; a notation may have a public one alone.
-/

namespace Doctype

structure ExternalId where
  /-- The public identifier, its white space collapsed. -/
  publicId : Option Text
  /-- The system identifier, a reference to a resource. -/
  systemId : Option Text
  deriving DecidableEq

namespace ExternalId

def none : ExternalId :=
  ⟨Option.none, Option.none⟩

/-- A public identifier with single spaces between its words and none around them. -/
def normalizePublic (t : Text) : Text :=
  Text.join [' '] (Text.words t)

def readSystem : Lexer ExternalId := fun t => do
  let (_, t) ← Lexer.requireBlanks "after 'SYSTEM'" t
  let (system, t) ← Lexer.quoted t
  return (⟨Option.none, some system⟩, t)

/-- The identifier behind the keyword `PUBLIC`; a system literal may only be missing if
`publicAlone`. -/
def readPublic (publicAlone : Bool) : Lexer ExternalId := fun t => do
  let (_, t) ← Lexer.requireBlanks "after 'PUBLIC'" t
  let (written, t) ← Lexer.quoted t
  let name := normalizePublic written
  let next := Text.skipBlanks t
  if Text.startsBlank t && Lexer.startsQuoted next then
    let (system, t) ← Lexer.quoted next
    return (⟨some name, some system⟩, t)
  else if publicAlone then
    return (⟨some name, Option.none⟩, t)
  else
    throw ⟨.systemLiteralRequired, t⟩

def read (publicAlone : Bool) : Lexer ExternalId := fun t =>
  match Lexer.keyword? "SYSTEM" t with
  | some rest => readSystem rest
  | Option.none =>
    match Lexer.keyword? "PUBLIC" t with
    | some rest => readPublic publicAlone rest
    | Option.none => throw ⟨.expectedExternalId, t⟩

/-- The identifier of a notation, which is all of the text behind its name. -/
def ofNotation (t : Text) : Except Lexer.Error ExternalId :=
  Lexer.whole (read true) t

end ExternalId
end Doctype
