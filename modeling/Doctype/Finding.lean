import Doctype.Declaration

/-!
What is wrong with single declarations. A finding never ends a run: it is kept by its cause and
shown as a diagnostic, with a kind, a wording and the declaration that it is about.
-/

namespace Doctype

inductive Diagnostic.Kind
  | contentModelSyntax
  | malformedAttributeList
  | malformedEntity
  | malformedNotation
  | duplicateIdAttribute
  | undeclaredEntity
  | danglingRoot
  deriving DecidableEq

def Diagnostic.Kind.label : Diagnostic.Kind → Text
  | contentModelSyntax => "content-model-syntax"
  | malformedAttributeList => "malformed-attribute-list"
  | malformedEntity => "malformed-entity"
  | malformedNotation => "malformed-notation"
  | duplicateIdAttribute => "duplicate-id-attribute"
  | undeclaredEntity => "undeclared-entity"
  | danglingRoot => "dangling-root"

def Diagnostic.Kind.all : List Diagnostic.Kind :=
  [contentModelSyntax, malformedAttributeList, malformedEntity, malformedNotation,
    duplicateIdAttribute, undeclaredEntity, danglingRoot]

structure Diagnostic where
  kind : Diagnostic.Kind
  message : Text
  declaration : Option Text
  deriving DecidableEq

namespace Diagnostic

def print (d : Diagnostic) : Text :=
  "[" ++ d.kind.label ++ "] " ++ d.message ++ match d.declaration with
    | some name => " (declaration '" ++ name ++ "')"
    | none => []

def ofKind (kind : Kind) (ds : List Diagnostic) : List Diagnostic :=
  ds.filter (·.kind = kind)

end Diagnostic

/-- Why an entity declaration counts for nothing. -/
inductive Entity.Fault
  | definition (error : Lexer.Error)
  | parameterWithNotation
  deriving DecidableEq

def Entity.Fault.message : Entity.Fault → Text
  | definition e => e.message
  | parameterWithNotation => "NDATA is not allowed on parameter entities"

/-- What is wrong with a declaration, or with a root that was asked for. -/
inductive Finding
  | contentModel (error : Content.Error)
  | attributeList (error : Attribute.ListError)
  | defaultValue (name element : Text) (error : Error)
  | undeclaredEntity (name element missing : Text)
  | entity (scope : Scope) (name : Text) (fault : Entity.Fault)
  | notationType (name : Text) (error : Lexer.Error)
  | duplicateId (element : Text) (names : List Text)
  | danglingRoot (name : Text)
  deriving DecidableEq

def Finding.diagnostic : Finding → Diagnostic
  | contentModel e => ⟨.contentModelSyntax, e.message, some e.element⟩
  | attributeList e =>
    ⟨.malformedAttributeList, (Error.attributeList e).message, some e.element⟩
  | defaultValue name element e =>
    ⟨.malformedAttributeList,
      "default value of attribute '" ++ name ++ "' on '" ++ element ++ "': " ++ e.message,
      some element⟩
  | undeclaredEntity name element missing =>
    ⟨.undeclaredEntity,
      "default value of attribute '" ++ name ++ "' on '" ++ element ++
        "' references undeclared entity '" ++ missing ++ "'", some missing⟩
  | entity scope name fault =>
    ⟨.malformedEntity, scope.label ++ " entity '" ++ name ++ "': " ++ fault.message, some name⟩
  | notationType name e =>
    ⟨.malformedNotation, "notation '" ++ name ++ "': " ++ e.message, some name⟩
  | duplicateId element names =>
    ⟨.duplicateIdAttribute,
      "element '" ++ element ++ "' declares more than one ID attribute: " ++
        Text.join ", ".toList names, some element⟩
  | danglingRoot name =>
    ⟨.danglingRoot, "root element '" ++ name ++ "' is not declared", some name⟩

end Doctype
