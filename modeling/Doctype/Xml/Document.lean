import Doctype.Reachable
import Doctype.Xml.Tag

/-!
A graph as an XML document: one block for each kind of declaration, in the order of the graph.
With a filter only the declarations in it are written; comments and instructions always are.
-/

namespace Doctype.Xml

/-- What is to be written: the declarations, a title, and the declarations to which they are
narrowed. -/
structure Document where
  graph : Graph
  title : Option Text
  filter : Option ReachableSet

def groupName : Content.GroupKind → Text
  | .sequence => "seq"
  | .choice => "choice"

def markAttributes : Option Content.Mark → List (Text × Text)
  | some m => [("q", [m.char])]
  | none => []

/-- What is left to be written of a content model: a tree, or the end of a group. -/
inductive Step
  | tree (p : Content.Particle)
  | close (name : Text)

def Step.pushAll : List Content.Particle → List Step → List Step
  | [], steps => steps
  | p :: ps, steps => tree p :: pushAll ps steps

def Step.weight : List Step → Nat
  | [] => 0
  | tree p :: steps => 2 * p.count + weight steps
  | close _ :: steps => 1 + weight steps

theorem Step.weight_pushAll (ps : List Content.Particle) (steps : List Step) :
    weight (pushAll ps steps) = 2 * Content.Particle.countAll ps + weight steps := by
  induction ps with
  | nil => simp [pushAll, Content.Particle.countAll]
  | cons p ps ih =>
    simp only [pushAll, weight, ih, Content.Particle.countAll]
    omega

/-- The tags of what is left of a content model, in document order. -/
def treeTags : List Step → List Tag
  | [] => []
  | .close name :: steps => .close name :: treeTags steps
  | .tree .pcdata :: steps => .empty "pcdata" [] :: treeTags steps
  | .tree (.name n mark) :: steps =>
    Tag.element "child" (markAttributes mark) n ++ treeTags steps
  | .tree (.group kind members mark) :: steps =>
    .start (groupName kind) (markAttributes mark) ::
      treeTags (Step.pushAll members (.close (groupName kind) :: steps))
termination_by steps => Step.weight steps
decreasing_by
  · simp [Step.weight]
  · simp [Step.weight, Content.Particle.count]
  · simp [Step.weight, Content.Particle.count]
  · simp only [Step.weight_pushAll, Step.weight, Content.Particle.count]
    omega

def contentTags (content : Content.Spec) : List Tag :=
  let summary : List (Text × Text) := [("spec", content.label), ("minified", content.print)]
  match content with
  | .empty => [.empty "content-model" summary]
  | .any => [.empty "content-model" summary]
  | .invalid raw message =>
    [.empty "content-model" [("spec", content.label), ("raw", raw), ("error", message)]]
  | .mixed p =>
    .start "content-model" summary :: treeTags [.tree p] ++ [.close "content-model"]
  | .children p =>
    .start "content-model" summary :: treeTags [.tree p] ++ [.close "content-model"]

def orderAttribute (order : Nat) : Text × Text :=
  ("dtdOrder", Text.decimal order)

def elementTags (e : Element) : List Tag :=
  .start "element" [("name", e.name), orderAttribute e.order] ::
    contentTags e.content ++ [.close "element"]

def valueAttributes (d : Attribute.Default) : List (Text × Text) :=
  match d.value? with
  | some v => [("defaultValue", v)]
  | none => []

def attributeTags (a : Attribute) : List Tag :=
  let declared : List (Text × Text) :=
    [("element", a.element), ("name", a.name), ("type", a.kind.print),
      ("mode", a.default.label)]
  let attributes := declared ++ valueAttributes a.default ++ [orderAttribute a.order]
  if a.kind.values.isEmpty then [.empty "attribute" attributes]
  else
    .start "attribute" attributes :: .start "enumeration" [] ::
      a.kind.values.flatMap (Tag.element "value" []) ++
        [.close "enumeration", .close "attribute"]

def idTags (id : ExternalId) : List Tag :=
  (match id.publicId with
    | some t => Tag.element "publicId" [] t
    | none => []) ++
  (match id.systemId with
    | some t => Tag.element "systemId" [] t
    | none => [])

def definitionTags : Entity.Definition → List Tag
  | .literal value => Tag.element "value" [] value
  | .external id notationName =>
    idTags id ++ match notationName with
      | some n => Tag.element "notation" [] n
      | none => []

def entityTags (e : Entity) : List Tag :=
  .start "entity" [("name", e.name), ("type", e.label), orderAttribute e.order] ::
    definitionTags e.definition ++ [.close "entity"]

def notationTags (n : NotationType) : List Tag :=
  let attributes : List (Text × Text) := [("name", n.name), orderAttribute n.order]
  if n.id = .none then [.empty "notation" attributes]
  else .start "notation" attributes :: idTags n.id ++ [.close "notation"]

def commentTags (c : Comment) : List Tag :=
  Tag.element "comment" [orderAttribute c.order] c.text

def instructionTags (i : Instruction) : List Tag :=
  Tag.element "pi" [("target", i.target), orderAttribute i.order] i.data

/-- A block of declarations; one without any is an empty tag. -/
def blockTags {α : Type} (name : Text) (tags : α → List Tag) (items : List α) : List Tag :=
  if items.isEmpty then [.empty name []]
  else .start name [] :: items.flatMap tags ++ [.close name]

namespace Document

def includes (d : Document) (k : Key) : Bool :=
  match d.filter with
  | some set => set.contains k
  | none => true

def entities (d : Document) (scope : Scope) : List Entity :=
  (d.graph.entities scope).filter fun e => d.includes (.entity scope e.name)

/-- The tags in front of the blocks: the title, and the roots of the filter. -/
def headTags (d : Document) : List Tag :=
  (match d.title with
    | some title => Tag.element "title" [] title
    | none => []) ++
  (match d.filter with
    | some set => [.empty "reachability" [("roots", Text.join [' '] set.roots)]]
    | none => [])

def bodyTags (d : Document) : List Tag :=
  blockTags "elements" elementTags
    (d.graph.elements.filter fun e => d.includes (.element e.name)) ++
  blockTags "attributes" attributeTags
    (d.graph.attributes.filter fun a => d.includes (.attributeOf a.element a.name)) ++
  blockTags "parameterEntities" entityTags (d.entities .parameter) ++
  blockTags "generalEntities" entityTags (d.entities .general) ++
  blockTags "notations" notationTags
    (d.graph.notations.filter fun n => d.includes (.notationType n.name)) ++
  blockTags "comments" commentTags d.graph.comments ++
  blockTags "processingInstructions" instructionTags d.graph.instructions

def tags (d : Document) : List Tag :=
  .declaration :: .start "declarations" [] :: d.headTags ++ d.bodyTags ++
    [.close "declarations"]

def print (d : Document) : Text :=
  Xml.print d.tags

end Document
end Doctype.Xml
