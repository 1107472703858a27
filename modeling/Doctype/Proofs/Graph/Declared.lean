import Doctype.Graph.Build

/-!
What a list of events declares, said without building a graph. Raw texts are given their
meaning one at a time (`Content.Spec.ofRaw`, `Entity.Definition.ofRaw?`,
`Attribute.Definition.normalized?`), and from an event is selected what it says under one name.
Nothing here depends on what other events say, but that the default value of an attribute is
normalized in a graph.
-/

namespace Doctype

/-- The specification that a raw content model stands for: what it is parsed to, or else the
marker with the trimmed text and what is wrong with it. -/
def Content.Spec.ofRaw (bound : Nat) (raw : Text) : Content.Spec :=
  match Content.Spec.parse bound raw with
  | .ok spec => spec
  | .error failure => .invalid (Text.trim raw) failure.fault.message

/-- What a raw text defines an entity of a scope to be, if it does: it must be a definition,
and one with a notation is not for a parameter entity. -/
def Entity.Definition.ofRaw? (scope : Scope) (raw : Text) : Option Entity.Definition :=
  match Entity.Definition.parse raw with
  | .ok (.literal value) => some (.literal (Reference.expandChars value))
  | .ok (.external id none) => some (.external id none)
  | .ok (.external id (some name)) =>
    match scope with
    | .general => some (.external id (some name))
    | .parameter => none
  | .error _ => none

/-- The type of an attribute, its default with the value in normal form, and the entities that
the value refers to; nothing if the value has no normal form. -/
def Attribute.Definition.normalized? (g : Graph) (limits : Limits) (d : Attribute.Definition) :
    Option (Attribute.Kind × Attribute.Default × List Text) :=
  match d.default with
  | .required => some (d.kind, .required, [])
  | .implied => some (d.kind, .implied, [])
  | .fixed raw =>
    (Attribute.Value.normalize g limits raw d.kind.isTokenized).toOption.map fun v =>
      (d.kind, .fixed v.value, v.references)
  | .plain raw =>
    (Attribute.Value.normalize g limits raw d.kind.isTokenized).toOption.map fun v =>
      (d.kind, .plain v.value, v.references)

namespace Event

def contentModel? (name : Text) : Event → Option Text
  | element owner raw => if owner = name then some raw else none
  | _ => none

def entityDefinition? (scope : Scope) (name : Text) : Event → Option Entity.Definition
  | entity s owner raw =>
    if s = scope ∧ owner = name then Entity.Definition.ofRaw? scope raw else none
  | _ => none

def externalId? (name : Text) : Event → Option ExternalId
  | notationType owner raw =>
    if owner = name then (ExternalId.ofNotation raw).toOption else none
  | _ => none

/-- The definitions in an event that is an attribute list of an element; none if it cannot be
parsed to its end. -/
def attributeDefinitions (element : Text) : Event → List Attribute.Definition
  | attributeList owner body =>
    if owner = element then (Attribute.Definition.parseAll body).toOption.getD [] else []
  | _ => []

def comment? : Event × Nat → Option Comment
  | (comment text, order) => some ⟨text, order⟩
  | _ => none

def instruction? : Event × Nat → Option Instruction
  | (instruction target data, order) => some ⟨target, data, order⟩
  | _ => none

def findings (limits : Limits) : Event → List Finding
  | element name raw =>
    match Content.Spec.parse limits.contentModelDepth raw with
    | .ok _ => []
    | .error failure => [.contentModel ⟨name, raw, failure⟩]
  | entity scope name raw =>
    match Entity.Definition.parse raw with
    | .ok (.external _ (some _)) =>
      if scope = .parameter then [.entity scope name .parameterWithNotation] else []
    | .ok _ => []
    | .error e => [.entity scope name (.definition e)]
  | notationType name raw =>
    match ExternalId.ofNotation raw with
    | .ok _ => []
    | .error e => [.notationType name e]
  | _ => []

end Event

/-- What is wrong with the default value of an attribute: it has no normal form, or it refers
to entities that are not declared. -/
def Attribute.Definition.findings (g : Graph) (limits : Limits) (element : Text)
    (d : Attribute.Definition) : List Finding :=
  match d.default.value? with
  | none => []
  | some raw =>
    match Attribute.Value.normalize g limits raw d.kind.isTokenized with
    | .ok v => v.undeclared.map (.undeclaredEntity d.name element)
    | .error e => [.defaultValue d.name element e]

def Event.attributeFindings (g : Graph) (limits : Limits) : Event → List Finding
  | attributeList owner body =>
    match Attribute.Definition.parseAll body with
    | .ok definitions => definitions.flatMap (Attribute.Definition.findings g limits owner)
    | .error e => [.attributeList ⟨owner, body, e⟩]
  | _ => []

end Doctype
