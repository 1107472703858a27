import Doctype.Content.Particle
import Doctype.Name

/-!
The tokens of a content model and the faults that one can have. Blanks between tokens do not
count; a name is as long as it can be, and so is a keyword.
-/

namespace Doctype.Content

inductive Lexeme
  | leftParen
  | rightParen
  | bar
  | comma
  | mark (mark : Mark)
  | pcdata
  | name (name : Text)
  deriving DecidableEq

def Lexeme.print : Lexeme → Text
  | leftParen => ['(']
  | rightParen => [')']
  | bar => ['|']
  | comma => [',']
  | mark m => [m.char]
  | pcdata => "#PCDATA"
  | name n => n

@[simp] theorem Lexeme.print_leftParen : leftParen.print = ['('] := rfl

@[simp] theorem Lexeme.print_name (n : Text) : (name n).print = n := rfl

/-- How a token is called in an error. -/
def Lexeme.describe : Lexeme → Text
  | name n => "name '" ++ n ++ "'"
  | l => "'" ++ l.print ++ "'"

/-- A token and the byte offset where it begins. -/
structure Token where
  offset : Nat
  lexeme : Lexeme
  deriving DecidableEq

inductive Fault
  | blank
  | notAGroup
  | unknownKeyword
  | unexpectedChar (c : Char)
  | tooDeep (bound : Nat)
  | separatorsDiffer
  | expectedSeparator (found : Lexeme)
  | expectedParticle (found : Lexeme)
  | pcdataMisplaced
  | unterminatedGroup
  | endOfModel
  | markedNameInMixed
  | groupInMixed
  | commaInMixed
  | unexpectedInMixed (found : Lexeme)
  | mixedNotRepeated
  | mixedMarked (mark : Mark)
  | trailing (found : Lexeme)
  | other (message : Text)
  deriving DecidableEq

def Fault.message : Fault → Text
  | blank => "empty content model"
  | notAGroup => "content model must be EMPTY, ANY or a parenthesized group"
  | unknownKeyword => "unknown keyword, expected '#PCDATA'"
  | unexpectedChar c => "unexpected character '" ++ [c] ++ "'"
  | tooDeep bound => "groups nested deeper than " ++ Text.decimal bound
  | separatorsDiffer => "cannot mix ',' and '|' in the same group"
  | expectedSeparator found => "unexpected " ++ found.describe ++ ", expected ',', '|' or ')'"
  | expectedParticle found => "unexpected " ++ found.describe ++ ", expected a name or '('"
  | pcdataMisplaced => "'#PCDATA' is only allowed first in the outermost group"
  | unterminatedGroup => "unterminated group"
  | endOfModel => "unexpected end of content model"
  | markedNameInMixed => "occurrence indicators are not allowed on names in mixed content"
  | groupInMixed => "nested groups are not allowed in mixed content"
  | commaInMixed => "mixed content must use '|' separators"
  | unexpectedInMixed found => "unexpected " ++ found.describe ++ " in mixed content"
  | mixedNotRepeated => "mixed content with element names must end in ')*'"
  | mixedMarked m => "mixed content cannot carry '" ++ [m.char] ++ "'"
  | trailing found => "unexpected " ++ found.describe ++ " after the content model"
  | other message => message

/-- A fault and the byte offset where it arose, if it has a place. -/
structure Failure where
  fault : Fault
  offset : Option Nat
  deriving DecidableEq

def Fault.at (fault : Fault) (offset : Nat) : Failure :=
  ⟨fault, some offset⟩

structure Error where
  element : Text
  spec : Text
  failure : Failure
  deriving DecidableEq

def Error.message (e : Error) : Text :=
  "element '" ++ e.element ++ "': " ++ e.failure.fault.message ++ " in '" ++ e.spec ++ "'" ++
    match e.failure.offset with
    | some offset => " (at offset " ++ Text.decimal offset ++ ")"
    | none => []

def Lexeme.ofChar? : Char → Option Lexeme
  | '(' => some leftParen
  | ')' => some rightParen
  | '|' => some bar
  | ',' => some comma
  | '?' => some (mark .optional)
  | '*' => some (mark .zeroOrMore)
  | '+' => some (mark .oneOrMore)
  | _ => none

/-- The token that begins with `c`, and what is left of the text behind `c`. -/
def Lexeme.read (c : Char) (t : Text) : Except Fault (Lexeme × Text) :=
  match ofChar? c with
  | some l => .ok (l, t)
  | none =>
    if c = '#' then
      match Text.dropPrefix? "PCDATA" t with
      | some rest =>
        if Text.startsNameChar rest then .error .unknownKeyword else .ok (pcdata, rest)
      | none => .error .unknownKeyword
    else if isNameStart c then
      .ok (name (c :: t.takeWhile isNameChar), t.dropWhile isNameChar)
    else .error (.unexpectedChar c)

theorem Lexeme.print_of_ofChar? {c : Char} {l : Lexeme} (h : ofChar? c = some l) :
    l.print = [c] := by
  unfold ofChar? at h
  split at h <;> cases h <;> rfl

/-- A token and what is left behind it are the text that was read. -/
theorem Lexeme.print_of_read {c : Char} {t rest : Text} {l : Lexeme}
    (h : read c t = .ok (l, rest)) : ∃ u, l.print = c :: u ∧ t = u ++ rest := by
  unfold read at h
  split at h
  · next hc =>
    cases h
    exact ⟨[], print_of_ofChar? hc, rfl⟩
  · split at h
    · next hc =>
      subst hc
      split at h
      · next hd =>
        split at h <;> cases h
        exact ⟨"PCDATA".toList, rfl, Text.dropPrefix?_eq_some hd⟩
      · cases h
    · split at h <;> cases h
      exact ⟨t.takeWhile isNameChar, rfl, by simp⟩

theorem Lexeme.read_length {c : Char} {t rest : Text} {l : Lexeme}
    (h : read c t = .ok (l, rest)) : rest.length ≤ t.length := by
  obtain ⟨u, _, rfl⟩ := print_of_read h
  simp

/-- The tokens of a text that begins at `offset`, behind the reversed tokens `done`. -/
def tokensFrom (done : List Token) (offset : Nat) : Text → Except Failure (List Token)
  | [] => .ok done.reverse
  | c :: t =>
    if isBlank c then tokensFrom done (offset + c.utf8Size) t
    else
      match _h : Lexeme.read c t with
      | .error fault => .error (fault.at offset)
      | .ok (lexeme, rest) =>
        tokensFrom (⟨offset, lexeme⟩ :: done) (offset + Text.size lexeme.print) rest
termination_by t => t.length
decreasing_by
  · simp
  · have := Lexeme.read_length _h; simp; omega

def tokens (raw : Text) : Except Failure (List Token) :=
  tokensFrom [] 0 raw

end Doctype.Content
