import Doctype.Attribute.Definition
import Doctype.Attribute.Value
import Doctype.Finding

/-!
The graph that a list of events declares. Elements, entities, notations, comments and
instructions are taken in order; attribute lists come after all of them, so that a default
value can refer to an entity that is declared later. A declaration that cannot be read is left
out and found fault with; an element is kept with a marker.
-/

namespace Doctype

structure Built where
  graph : Graph
  findings : List Finding

def Element.declare (limits : Limits) (name raw : Text) (order : Nat) :
    Element × List Finding :=
  match Content.Spec.parseFor name limits.contentModelDepth raw with
  | .ok content => (⟨name, content, order⟩, [])
  | .error e =>
    (⟨name, .invalid (Text.trim raw) e.failure.fault.message, order⟩, [.contentModel e])

/-- The entity that an event declares: character references in a literal are expanded, and a
parameter entity has no notation. -/
def Entity.declare (scope : Scope) (name raw : Text) (order : Nat) :
    Except Entity.Fault Entity :=
  match Entity.Definition.parse raw with
  | .error e => .error (.definition e)
  | .ok (.literal value) => .ok ⟨name, scope, .literal (Reference.expandChars value), order⟩
  | .ok (.external id notationName) =>
    if scope = .parameter ∧ notationName.isSome then .error .parameterWithNotation
    else .ok ⟨name, scope, .external id notationName, order⟩

def Attribute.declare (g : Graph) (limits : Limits) (element : Text) (order : Nat)
    (d : Attribute.Definition) : Option Attribute × List Finding :=
  match d.default.value? with
  | none => (some ⟨element, d.name, d.kind, d.default, [], order⟩, [])
  | some raw =>
    match Attribute.Value.normalize g limits raw d.kind.isTokenized with
    | .ok v =>
      (some ⟨element, d.name, d.kind, d.default.withValue v.value, v.references, order⟩,
        v.undeclared.map (.undeclaredEntity d.name element))
    | .error e => (none, [.defaultValue d.name element e])

namespace Graph

/-- Takes an event other than an attribute list. -/
def addEvent (limits : Limits) (b : Built) : Event × Nat → Built
  | (.element name raw, order) =>
    let (d, fs) := Element.declare limits name raw order
    ⟨(b.graph.insertElement d).2, b.findings ++ fs⟩
  | (.attributeList _ _, _) => b
  | (.entity scope name raw, order) =>
    match Entity.declare scope name raw order with
    | .ok d => { b with graph := (b.graph.insertEntity d).2 }
    | .error fault => { b with findings := b.findings ++ [.entity scope name fault] }
  | (.notationType name raw, order) =>
    match ExternalId.ofNotation raw with
    | .ok id => { b with graph := (b.graph.insertNotation ⟨name, id, order⟩).2 }
    | .error e => { b with findings := b.findings ++ [.notationType name e] }
  | (.comment text, order) => { b with graph := b.graph.pushComment ⟨text, order⟩ }
  | (.instruction target data, order) =>
    { b with graph := b.graph.pushInstruction ⟨target, data, order⟩ }

/-- Takes an attribute list; other events were taken before. -/
def addAttributes (limits : Limits) (b : Built) : Event × Nat → Built
  | (.attributeList element body, order) =>
    match Attribute.Definition.parseAll body with
    | .error e => { b with findings := b.findings ++ [.attributeList ⟨element, body, e⟩] }
    | .ok ds =>
      let declared := ds.map (Attribute.declare b.graph limits element order)
      ⟨(declared.filterMap (·.1)).foldl (fun g a => (g.insertAttribute a).2) b.graph,
        b.findings ++ declared.flatMap (·.2)⟩
  | _ => b

/-- Adds an attribute to the group of its element if it has the type `ID`. -/
def addId (ids : List (Text × List Text)) (a : Attribute) : List (Text × List Text) :=
  if a.kind = .id then Table.addTo a.element a.name ids else ids

/-- The elements that have more than one attribute of type `ID`, in the order of the first of
these. -/
def duplicateIds (g : Graph) : List Finding :=
  (g.attributes.foldl addId []).filterMap fun (element, names) =>
    if 1 < names.length then some (.duplicateId element names) else none

def build (limits : Limits) (events : List Event) : Built :=
  let numbered := events.zipIdx 1
  let b := numbered.foldl (addEvent limits) ⟨.empty, []⟩
  let b := numbered.foldl (addAttributes limits) b
  { b with findings := b.findings ++ b.graph.duplicateIds }

end Graph
end Doctype
