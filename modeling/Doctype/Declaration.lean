import Doctype.Attribute.Type
import Doctype.Content.Spec
import Doctype.Entity.Definition
import Doctype.Event

/-!
The declarations of a model. Each has the place of its first declaration among the events,
counted from one, and a key that tells it apart.
-/

namespace Doctype

structure Element where
  name : Text
  content : Content.Spec
  order : Nat

/-- An attribute of an element, its default value normalized, with the general entities that
the value refers to. -/
structure Attribute where
  element : Text
  name : Text
  kind : Attribute.Kind
  default : Attribute.Default
  references : List Text
  order : Nat
  deriving DecidableEq

/-- An entity; the literal of one that has a literal is its replacement text. -/
structure Entity where
  name : Text
  scope : Scope
  definition : Entity.Definition
  order : Nat
  deriving DecidableEq

namespace Entity

def label (e : Entity) : Text :=
  match e.definition with
  | .literal _ => "internal"
  | .external _ none => "external"
  | .external _ (some _) => "unparsed"

def notationName? (e : Entity) : Option Text :=
  match e.definition with
  | .literal _ => none
  | .external _ n => n

def replacement? (e : Entity) : Option Text :=
  match e.definition with
  | .literal value => some value
  | .external _ _ => none

end Entity

structure NotationType where
  name : Text
  id : ExternalId
  order : Nat
  deriving DecidableEq

structure Comment where
  text : Text
  order : Nat
  deriving DecidableEq

structure Instruction where
  target : Text
  data : Text
  order : Nat
  deriving DecidableEq

/-- What tells a declaration apart from all others. -/
inductive Key
  | element (name : Text)
  | attributeOf (element name : Text)
  | entity (scope : Scope) (name : Text)
  | notationType (name : Text)
  deriving DecidableEq

namespace Key

/-- The rank of the kind of a key, and its names, in the order in which keys are compared. -/
def rank : Key → Nat × Text × Text
  | element n => (0, n, [])
  | attributeOf e n => (1, e, n)
  | entity .general n => (2, n, [])
  | entity .parameter n => (3, n, [])
  | notationType n => (4, n, [])

/-- Whether a key does not come after another one: by kind, then by names. -/
def le (a b : Key) : Bool :=
  let (i, x, y) := a.rank
  let (j, u, v) := b.rank
  decide (i < j ∨ (i = j ∧ (x < u ∨ (x = u ∧ (y < v ∨ y = v)))))

end Key
end Doctype
