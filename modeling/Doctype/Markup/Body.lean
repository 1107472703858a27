import Doctype.Event
import Doctype.Markup.Item

/-!
Bodies of declarations: the pieces between which references to parameter entities stand, and
the event that a body without such references tells.
-/

namespace Doctype.Markup

/-- A piece of a body: a character, or a reference and whether it stands between quotation
marks. -/
inductive Piece
  | char (c : Char)
  | reference (name : Text) (isQuoted : Bool)
  deriving DecidableEq

/-- The pieces of a text behind the reversed pieces `done`. Between quotation marks there are
references only if `inLiterals`. -/
def piecesFrom (inLiterals : Bool) (quote : Option Char) (done : List Piece) :
    Text → List Piece
  | [] => done.reverse
  | c :: t =>
    if c = '%' && (quote.isNone || inLiterals) then
      match _h : reference? t with
      | some (name, rest) =>
        piecesFrom inLiterals quote (.reference name quote.isSome :: done) rest
      | none => piecesFrom inLiterals quote (.char c :: done) t
    else piecesFrom inLiterals (quoteAfter quote c) (.char c :: done) t
termination_by t => t.length
decreasing_by
  · simp [reference?_eq_some _h]
    omega
  · simp
  · simp

def pieces (inLiterals : Bool) (t : Text) : List Piece :=
  piecesFrom inLiterals none [] t

def writeReference (name : Text) : Text :=
  '%' :: name ++ [';']

/-- The scope of an entity, told by a percent sign, and what is left. -/
def readScope (t : Text) : Except Fault (Scope × Text) :=
  match t with
  | '%' :: rest =>
    if Text.startsBlank rest then .ok (.parameter, Text.skipBlanks rest)
    else .error .blankAfterPercent
  | _ => .ok (.general, t)

def DeclarationKind.event (kind : DeclarationKind) (scope : Scope) (name definition : Text) :
    Event :=
  match kind with
  | element => .element name definition
  | attributeList => .attributeList name definition
  | entity => .entity scope name definition
  | notationType => .notationType name definition

/-- The event that the body of a declaration tells: a name, in front of it the scope if it is
an entity, and the rest without the white space around it. -/
def DeclarationKind.read (kind : DeclarationKind) (body : Text) : Except Fault Event := do
  let t := Text.skipBlanks body
  let (scope, t) ← if kind = entity then readScope t else pure (.general, t)
  match Text.name? t with
  | some (name, rest) => return kind.event scope name (Text.trim rest)
  | none => throw (.unnamed kind)

end Doctype.Markup
