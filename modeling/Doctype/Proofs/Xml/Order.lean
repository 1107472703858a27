import Doctype.Proofs.Graph.Order
import Doctype.Proofs.Xml.Nesting

/-!
The places that a document tells. In every block they are those of the declarations that are
written, one for each, and no other tag tells one (`Document.ordersIn_block`). So for a graph
that events declare, they are the places of the events that brought the declarations in, and
they increase along each block, whatever the document is narrowed to (`Graph.build_inOrder`).
-/

namespace Doctype.Xml

def Tag.attributes : Tag → List (Text × Text)
  | start _ attributes => attributes
  | empty _ attributes => attributes
  | _ => []

/-- The places that tags tell, as they are written. -/
def ordersIn (tags : List Tag) : List Text :=
  tags.filterMap fun tag => tag.attributes.lookup ("dtdOrder" : Text)

theorem ordersIn_eq_told (tags : List Tag) :
    ordersIn tags = told (fun _ attributes => attributes.lookup ("dtdOrder" : Text)) tags := by
  refine congrFun (congrArg List.filterMap (funext fun tag => ?_)) tags
  cases tag <;> rfl

/-! ### Declarations -/

theorem Part.lookup_dtdOrder {A : Char → Prop} {name : Text} {attributes : List (Text × Text)}
    {filling : Filling} (h : Part A name attributes filling) :
    attributes.lookup ("dtdOrder" : Text) = none := by
  cases h with
  | child mark _ => cases mark <;> rfl
  | group kind mark => cases mark <;> rfl
  | _ => rfl

theorem IsElement.ordersIn_eq {A : Char → Prop} {name : Text}
    {attributes : List (Text × Text)} {filling : Filling} {tags : List Tag}
    (h : IsElement (Part A) name attributes filling tags) :
    ordersIn tags = (attributes.lookup ("dtdOrder" : Text)).toList := by
  rw [ordersIn_eq_told, h.told_eq Part.lookup_dtdOrder]

theorem ordersIn_elementTags (e : Element) :
    ordersIn (elementTags e) = [Text.decimal e.order] :=
  (isElement_elementTags (e.content.over_of_forall fun _ => trivial)).ordersIn_eq

theorem ordersIn_attributeTags (a : Attribute) :
    ordersIn (attributeTags a) = [Text.decimal a.order] := by
  obtain ⟨filling, -, helement⟩ :=
    isElement_attributeTags (A := fun _ => True) (a := a) fun _ _ _ _ => trivial
  rw [helement.ordersIn_eq]
  obtain ⟨element, name, kind, default, references, order⟩ := a
  cases default <;> rfl

theorem ordersIn_entityTags (e : Entity) : ordersIn (entityTags e) = [Text.decimal e.order] :=
  (isElement_entityTags (e.definition.over_of_forall fun _ => trivial)).ordersIn_eq

theorem ordersIn_notationTags (n : NotationType) :
    ordersIn (notationTags n) = [Text.decimal n.order] := by
  obtain ⟨filling, -, helement⟩ :=
    isElement_notationTags (n.id.over_of_forall fun _ => trivial)
  exact helement.ordersIn_eq

theorem ordersIn_commentTags (c : Comment) :
    ordersIn (commentTags c) = [Text.decimal c.order] :=
  (isElement_commentTags (A := fun _ => True) c).ordersIn_eq

theorem ordersIn_instructionTags (i : Instruction) :
    ordersIn (instructionTags i) = [Text.decimal i.order] :=
  (isElement_instructionTags (A := fun _ => True) i).ordersIn_eq

theorem ordersIn_blockTags {α : Type} {f : α → List Tag} {order : α → Nat}
    (h : ∀ a, ordersIn (f a) = [Text.decimal (order a)]) (name : Text) (items : List α) :
    ordersIn (blockTags name f items) = (items.map order).map Text.decimal := by
  rw [ordersIn_eq_told, told_blockTags]
  simp only [← ordersIn_eq_told, h, ← List.map_eq_flatMap, List.map_map]
  rfl

/-! ### Blocks -/

inductive Block
  | elements
  | attributes
  | entities (scope : Scope)
  | notations
  | comments
  | instructions
  deriving DecidableEq

def Block.all : List Block :=
  [elements, attributes, entities .parameter, entities .general, notations, comments,
    instructions]

/-- Whether a place may stand in front of another one in a block: one attribute list can
declare many attributes, and everything else has a place of its own. -/
def Block.mayPrecede : Block → Nat → Nat → Prop
  | attributes => (· ≤ ·)
  | _ => (· < ·)

namespace Document

def block (d : Document) : Block → List Tag
  | .elements =>
    blockTags "elements" elementTags
      (d.graph.elements.filter fun e => d.includes (.element e.name))
  | .attributes =>
    blockTags "attributes" attributeTags
      (d.graph.attributes.filter fun a => d.includes (.attributeOf a.element a.name))
  | .entities .parameter => blockTags "parameterEntities" entityTags (d.entities .parameter)
  | .entities .general => blockTags "generalEntities" entityTags (d.entities .general)
  | .notations =>
    blockTags "notations" notationTags
      (d.graph.notations.filter fun n => d.includes (.notationType n.name))
  | .comments => blockTags "comments" commentTags d.graph.comments
  | .instructions => blockTags "processingInstructions" instructionTags d.graph.instructions

theorem tags_eq_blocks (d : Document) : d.tags =
    .declaration :: .start "declarations" [] :: d.headTags ++ Block.all.flatMap d.block ++
      [.close "declarations"] := by
  simp [tags, bodyTags, Block.all, block]

def orders (d : Document) : Block → List Nat
  | .elements =>
    (d.graph.elements.filter fun e => d.includes (.element e.name)).map Element.order
  | .attributes =>
    (d.graph.attributes.filter fun a => d.includes (.attributeOf a.element a.name)).map
      Attribute.order
  | .entities scope => (d.entities scope).map Entity.order
  | .notations =>
    (d.graph.notations.filter fun n => d.includes (.notationType n.name)).map
      NotationType.order
  | .comments => d.graph.comments.map Comment.order
  | .instructions => d.graph.instructions.map Instruction.order

theorem ordersIn_block (d : Document) (b : Block) :
    ordersIn (d.block b) = (d.orders b).map Text.decimal := by
  cases b with
  | elements => exact ordersIn_blockTags ordersIn_elementTags _ _
  | attributes => exact ordersIn_blockTags ordersIn_attributeTags _ _
  | entities scope => cases scope <;> exact ordersIn_blockTags ordersIn_entityTags _ _
  | notations => exact ordersIn_blockTags ordersIn_notationTags _ _
  | comments => exact ordersIn_blockTags ordersIn_commentTags _ _
  | instructions => exact ordersIn_blockTags ordersIn_instructionTags _ _

theorem pairwise_orders {d : Document} (h : d.graph.InOrder) (b : Block) :
    (d.orders b).Pairwise b.mayPrecede := by
  cases b with
  | elements => exact List.pairwise_map.2 (h.elements.filter _)
  | attributes => exact List.pairwise_map.2 (h.attributes.filter _)
  | entities scope => exact List.pairwise_map.2 ((h.entities scope).filter _)
  | notations => exact List.pairwise_map.2 (h.notations.filter _)
  | comments => exact List.pairwise_map.2 h.comments
  | instructions => exact List.pairwise_map.2 h.instructions

end Document
end Doctype.Xml

namespace Doctype.Graph

/-- Declarations have the places of the events that bring them in, and stand in the order of
their places, in the graph and in every block of the document, narrowed or not. -/
theorem build_inOrder (limits : Limits) (events : List Event) :
    let g := (build limits events).graph
    g.PlacedBy limits events ∧ g.InOrder ∧
      ∀ title filter, let d : Xml.Document := ⟨g, title, filter⟩
        d.tags = .declaration :: .start "declarations" [] :: d.headTags ++
          Xml.Block.all.flatMap d.block ++ [.close "declarations"] ∧
        ∀ b, Xml.ordersIn (d.block b) = (d.orders b).map Text.decimal ∧
        (d.orders b).Pairwise b.mayPrecede := by
  intro g
  have horder : g.InOrder := inOrder_build limits events
  refine ⟨placedBy_build limits events, horder, fun title filter =>
    ⟨Xml.Document.tags_eq_blocks _, fun b => ?_⟩⟩
  exact ⟨Xml.Document.ordersIn_block _ b, Xml.Document.pairwise_orders horder b⟩

end Doctype.Graph
