import Doctype.Declaration
import Doctype.Table

/-!
The declarations of a document type, those of each kind in the order in which they were first
met. What a declaration says about another one is a name that is looked up here. A later
declaration of an element, an attribute or a notation takes the place of the one before; of the
declarations of an entity the first one counts. The attributes of an element are found through
the positions that are kept for it.

The tables store no keys beside their declarations. A declaration is looked up by the name that
it has itself, so that a key is the name of what it leads to holds by this representation and
is nowhere proved.
-/

namespace Doctype

/-- The declarations of a document type. -/
structure Graph where
  elements : List Element
  attributes : List Attribute
  /-- The positions in `attributes`, grouped by element. -/
  positions : List (Text × List Nat)
  generalEntities : List Entity
  parameterEntities : List Entity
  notations : List NotationType
  comments : List Comment
  instructions : List Instruction

namespace Graph

def empty : Graph :=
  ⟨[], [], [], [], [], [], [], []⟩

def entities (g : Graph) : Scope → List Entity
  | .general => g.generalEntities
  | .parameter => g.parameterEntities

def element? (g : Graph) (name : Text) : Option Element :=
  Table.find? Element.name name g.elements

def attributeKey (a : Attribute) : Text × Text :=
  (a.element, a.name)

def attribute? (g : Graph) (element name : Text) : Option Attribute :=
  Table.find? attributeKey (element, name) g.attributes

def entity? (g : Graph) (scope : Scope) (name : Text) : Option Entity :=
  Table.find? Entity.name name (g.entities scope)

def notationType? (g : Graph) (name : Text) : Option NotationType :=
  Table.find? NotationType.name name g.notations

/-- The positions that are kept for an element. -/
def positionsOf (g : Graph) (element : Text) : List Nat :=
  ((Table.find? Prod.fst element g.positions).map Prod.snd).getD []

/-- The attributes of an element: those at its positions. -/
def attributesOf (g : Graph) (element : Text) : List Attribute :=
  (g.positionsOf element).filterMap fun i => g.attributes[i]?

/-- Adds an element; one with its name is replaced and lends its place in the order. Tells
whether the name was new. -/
def insertElement (g : Graph) (d : Element) : Bool × Graph :=
  ((g.element? d.name).isNone,
    { g with
      elements :=
        Table.put Element.name (fun old new => { new with order := old.order }) d g.elements })

/-- Adds an attribute; one of its element with its name is replaced and lends its place in the
order, and for a new one its position is kept. Tells whether the attribute was new. -/
def insertAttribute (g : Graph) (d : Attribute) : Bool × Graph :=
  let isNew := (g.attribute? d.element d.name).isNone
  (isNew,
    { g with
      attributes :=
        Table.put attributeKey (fun old new => { new with order := old.order }) d g.attributes
      positions :=
        if isNew then Table.addTo d.element g.attributes.length g.positions else g.positions })

/-- Adds an entity, unless its scope has one with its name. Tells whether the name was new. -/
def insertEntity (g : Graph) (d : Entity) : Bool × Graph :=
  ((g.entity? d.scope d.name).isNone,
    match d.scope with
    | .general => { g with generalEntities := Table.putNew Entity.name d g.generalEntities }
    | .parameter =>
      { g with parameterEntities := Table.putNew Entity.name d g.parameterEntities })

/-- Adds a notation; one with its name is replaced and lends its place in the order. Tells
whether the name was new. -/
def insertNotation (g : Graph) (d : NotationType) : Bool × Graph :=
  ((g.notationType? d.name).isNone,
    { g with
      notations :=
        Table.put NotationType.name (fun old new => { new with order := old.order }) d
          g.notations })

def pushComment (g : Graph) (c : Comment) : Graph :=
  { g with comments := g.comments ++ [c] }

def pushInstruction (g : Graph) (i : Instruction) : Graph :=
  { g with instructions := g.instructions ++ [i] }

/-- The keys of all declarations, kind by kind. -/
def keys (g : Graph) : List Key :=
  g.elements.map (.element ·.name) ++
    g.attributes.map (fun a => .attributeOf a.element a.name) ++
    g.generalEntities.map (.entity .general ·.name) ++
    g.parameterEntities.map (.entity .parameter ·.name) ++
      g.notations.map (.notationType ·.name)

def contains (g : Graph) : Key → Bool
  | .element n => (g.element? n).isSome
  | .attributeOf e n => (g.attribute? e n).isSome
  | .entity s n => (g.entity? s n).isSome
  | .notationType n => (g.notationType? n).isSome

def counts (g : Graph) : List Nat :=
  [g.elements.length, g.attributes.length, g.generalEntities.length,
    g.parameterEntities.length, g.notations.length, g.comments.length, g.instructions.length]

end Graph
end Doctype
