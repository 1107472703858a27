import Doctype.Lexer

/-!
What can be wrong with the markup of a document type.
-/

namespace Doctype.Markup

inductive DeclarationKind
  | element
  | attributeList
  | entity
  | notationType
  deriving DecidableEq

def DeclarationKind.unnamed : DeclarationKind → Text
  | element => "element declaration without a name"
  | attributeList => "attribute-list declaration without an element name"
  | entity => "entity declaration without a name"
  | notationType => "notation declaration without a name"

inductive Fault
  | unexpectedChar (c : Char)
  | unterminatedSubset
  | unterminatedSection
  | unterminatedComment
  | unterminatedInstruction
  | instructionWithoutTarget
  | unterminatedDeclaration
  | keywordMissing
  | unknownDeclaration (keyword : Text)
  | unnamed (kind : DeclarationKind)
  | blankAfterPercent
  | malformedReference
  | undeclaredEntity (name : Text)
  | recursiveEntity (name : Text) (active : List Text)
  | sectionBracketMissing
  | unknownSection (keyword : Text)
  | doctypeMissing
  | blankAfterDoctype
  | rootNameMissing
  | externalSubset (fault : Lexer.Fault)
  | doctypeEndMissing
  | closeMissing (mark : Text)
  deriving DecidableEq

/-- The names on the way to an entity that is referred to while it is expanded. -/
def cycle (name : Text) (active : List Text) : Text :=
  "(" ++ Text.join " -> ".toList active ++ " -> " ++ name ++ ")"

def Fault.message : Fault → Text
  | unexpectedChar c => "unexpected character '" ++ [c] ++ "'"
  | unterminatedSubset => "unterminated internal subset"
  | unterminatedSection => "unterminated conditional section"
  | unterminatedComment => "unterminated comment"
  | unterminatedInstruction => "unterminated processing instruction"
  | instructionWithoutTarget => "processing instruction without a target"
  | unterminatedDeclaration => "unterminated markup declaration"
  | keywordMissing => "expected a declaration keyword after '<!'"
  | unknownDeclaration keyword => "unknown declaration '<!" ++ keyword ++ "'"
  | unnamed kind => kind.unnamed
  | blankAfterPercent => "whitespace required after '%'"
  | malformedReference => "malformed parameter entity reference"
  | undeclaredEntity name => "undeclared parameter entity '%" ++ name ++ ";'"
  | recursiveEntity name active =>
    "recursive reference to parameter entity '%" ++ name ++ ";' " ++ cycle name active
  | sectionBracketMissing => "expected '[' after the conditional section keyword"
  | unknownSection keyword => "expected INCLUDE or IGNORE, found '" ++ keyword ++ "'"
  | doctypeMissing => "document has no DOCTYPE declaration"
  | blankAfterDoctype => "whitespace required after '<!DOCTYPE'"
  | rootNameMissing => "expected the document element name"
  | externalSubset fault => fault.message
  | doctypeEndMissing => "expected '>' to close the DOCTYPE declaration"
  | closeMissing mark => "missing '" ++ mark ++ "'"

end Doctype.Markup
