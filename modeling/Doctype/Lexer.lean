import Doctype.Name

/-!
Lexers for the bodies of declarations. A lexer takes a text and gives a value and what is left,
or a fault and what was left where it arose; what is left is always a suffix of the text, so
its size tells the place (`Failure.toError`).
-/

namespace Doctype.Lexer

inductive Fault
  | blankRequired (context : Text)
  | expectedChar (expected : Char) (found : Option Char)
  | expectedLiteral
  | unterminatedLiteral
  | expectedExternalId
  | systemLiteralRequired
  | expectedNotationName
  | unexpectedText (rest : Text)
  | expectedAttributeName
  | expectedAttributeType
  | unknownAttributeType (keyword : Text)
  | expectedGroupMember (isName : Bool)
  | expectedGroupEnd
  | defaultMissing (name : Text)
  | expectedDefault
  | lessThanInValue
  | other (message : Text)
  deriving DecidableEq

def Fault.message : Fault → Text
  | blankRequired context => "whitespace required " ++ context
  | expectedChar c (some d) => "expected '" ++ [c] ++ "', found '" ++ [d] ++ "'"
  | expectedChar c none => "expected '" ++ [c] ++ "', found end of input"
  | expectedLiteral => "expected a quoted literal"
  | unterminatedLiteral => "unterminated literal"
  | expectedExternalId => "expected 'SYSTEM' or 'PUBLIC'"
  | systemLiteralRequired => "system literal required after public identifier"
  | expectedNotationName => "expected notation name after 'NDATA'"
  | unexpectedText rest => "unexpected '" ++ rest ++ "'"
  | expectedAttributeName => "expected an attribute name"
  | expectedAttributeType => "expected an attribute type"
  | unknownAttributeType keyword => "unknown attribute type '" ++ keyword ++ "'"
  | expectedGroupMember true => "expected a notation name"
  | expectedGroupMember false => "expected an enumeration token"
  | expectedGroupEnd => "expected '|' or ')'"
  | defaultMissing name => "default declaration missing for attribute '" ++ name ++ "'"
  | expectedDefault => "expected '#REQUIRED', '#IMPLIED', '#FIXED' or a quoted default"
  | lessThanInValue => "'<' is not allowed in attribute values"
  | other message => message

/-- A fault and what was left of the text where it arose. -/
structure Failure where
  fault : Fault
  rest : Text

structure Error where
  fault : Fault
  offset : Nat
  deriving DecidableEq

def Error.message (e : Error) : Text :=
  e.fault.message ++ " (at offset " ++ Text.decimal e.offset ++ ")"

def Failure.toError (whole : Text) (f : Failure) : Error :=
  ⟨f.fault, Text.offset whole f.rest⟩

end Lexer

/-- Reads a value from the front of a text and gives what is left. -/
abbrev Lexer (α : Type) := Text → Except Lexer.Failure (α × Text)

namespace Lexer

/-- What a lexer leaves is always an end of what it was given. -/
def Bounded {α : Type} (lexer : Lexer α) : Prop :=
  ∀ t a r, lexer t = .ok (a, r) → r <:+ t

/-- At least one blank, or the end of the text. -/
def requireBlanks (context : Text) : Lexer Unit
  | [] => .ok ((), [])
  | c :: t =>
    if isBlank c then .ok ((), Text.skipBlanks t) else .error ⟨.blankRequired context, c :: t⟩

/-- At least one blank, or the fault that says why one must stand there. -/
def blanks (fault : Fault) : Lexer Unit := fun t =>
  if Text.startsBlank t then .ok ((), Text.skipBlanks t) else .error ⟨fault, t⟩

/-- What follows a keyword, if the text begins with it and no name character prolongs it. -/
def keyword? (keyword t : Text) : Option Text :=
  match Text.dropPrefix? keyword t with
  | some rest => if Text.startsNameChar rest then none else some rest
  | none => none

def char (expected : Char) : Lexer Unit
  | c :: t =>
    if c = expected then .ok ((), t) else .error ⟨.expectedChar expected (some c), c :: t⟩
  | [] => .error ⟨.expectedChar expected none, []⟩

def isQuote (c : Char) : Bool :=
  c = '"' || c = '\''

def startsQuoted : Text → Bool
  | c :: _ => isQuote c
  | [] => false

/-- A quoted literal: everything up to the next quotation mark of the kind that opens it. -/
def quoted : Lexer Text
  | [] => .error ⟨.expectedLiteral, []⟩
  | q :: t =>
    if isQuote q then
      match t.dropWhile (· ≠ q) with
      | [] => .error ⟨.unterminatedLiteral, q :: t⟩
      | _ :: rest => .ok (t.takeWhile (· ≠ q), rest)
    else .error ⟨.expectedLiteral, q :: t⟩

/-- Reads the whole text: blanks, one value, blanks, and nothing else. -/
def whole {α : Type} (lexer : Lexer α) (t : Text) : Except Error α :=
  match lexer (Text.skipBlanks t) with
  | .error f => .error (f.toError t)
  | .ok (a, rest) =>
    match Text.skipBlanks rest with
    | [] => .ok a
    | left => .error (Failure.toError t ⟨.unexpectedText left, left⟩)

theorem bind_eq_ok {α β : Type} {x : Except Failure α} {f : α → Except Failure β} {b : β}
    (h : (x >>= f) = .ok b) : ∃ a, x = .ok a ∧ f a = .ok b := by
  cases x with
  | error e => cases h
  | ok a => exact ⟨a, rfl, h⟩

theorem requireBlanks_bounded (context : Text) : Bounded (requireBlanks context) := by
  intro t a r h
  unfold requireBlanks at h
  split at h
  · cases h; simp
  · next c t =>
    split at h
    · cases h
      exact (Text.skipBlanks_suffix t).trans (List.suffix_cons c t)
    · cases h

theorem blanks_bounded (fault : Fault) : Bounded (blanks fault) := by
  intro t a r h
  unfold blanks at h
  split at h
  · cases h; exact Text.skipBlanks_suffix t
  · cases h

theorem char_bounded (c : Char) : Bounded (char c) := by
  intro t a r h
  unfold char at h
  split at h
  · split at h
    · cases h; exact List.suffix_cons _ _
    · cases h
  · cases h

theorem quoted_bounded : Bounded quoted := by
  intro t a r h
  unfold quoted at h
  split at h
  · cases h
  · next q t =>
    split at h
    · split at h
      · cases h
      · next c rest hd =>
        cases h
        have h1 : c :: r <:+ t := hd ▸ List.dropWhile_suffix _
        exact (List.suffix_cons c r).trans (h1.trans (List.suffix_cons q t))
    · cases h

theorem keyword?_suffix {keyword t r : Text} (h : keyword? keyword t = some r) : r <:+ t := by
  unfold keyword? at h
  split at h
  · next rest hd =>
    split at h
    · cases h
    · cases h
      exact ⟨keyword, (Text.dropPrefix?_eq_some hd).symm⟩
  · cases h

end Lexer
end Doctype
