import Doctype.Xml.Document

/-!
Writing a document tag by tag into a sink with little room. The first tag that is not taken
whole ends all writing, and its error is passed on through every function up to
`Document.write`.
-/

namespace Doctype.Xml

/-- An XML writer: the sink below it, and the layout that its next tag depends on. -/
structure Writer where
  sink : Sink
  layout : Layout

/-- A step of writing, which may fail. -/
abbrev Writing := EStateM Error Writer

namespace Writing

/-- Where a step ends: what was taken by then, and whether it failed. -/
def ending : EStateM.Result Error Writer Unit → Sink × Except Error Unit
  | .ok _ w => (w.sink, .ok ())
  | .error e w => (w.sink, .error e)

/-! ### Tags -/

/-- Puts a text into the sink, and fails with the error if it is not taken whole. -/
def put (t : Text) (e : Error) : Writing Unit := fun w =>
  match w.sink.put t with
  | (sink, true) => .ok () { w with sink }
  | (sink, false) => .error e { w with sink }

def event (tag : Tag) : Writing Unit := do
  let w ← get
  let (chunk, layout) := w.layout.place tag
  set { w with layout }
  put chunk (.xml .full)

def startElement (name : Text) (attributes : List (Text × Text)) : Writing Unit :=
  event (.start name attributes)

def emptyElement (name : Text) (attributes : List (Text × Text)) : Writing Unit :=
  event (.empty name attributes)

def endElement (name : Text) : Writing Unit :=
  event (.close name)

def textElement (name : Text) (attributes : List (Text × Text)) (t : Text) : Writing Unit := do
  startElement name attributes
  event (.text t)
  endElement name

/-- Writes a line feed past the XML writer, straight into the sink. -/
def lineFeed : Writing Unit :=
  put ['\n'] (.io .full)

/-! ### Content models -/

/-- Writes what is left of a content model, with the groups that are open on a stack. -/
def writeSteps : List Step → Writing Unit
  | [] => return
  | .close name :: steps => do
    endElement name
    writeSteps steps
  | .tree .pcdata :: steps => do
    emptyElement "pcdata" []
    writeSteps steps
  | .tree (.name n mark) :: steps => do
    textElement "child" (markAttributes mark) n
    writeSteps steps
  | .tree (.group kind members mark) :: steps => do
    startElement (groupName kind) (markAttributes mark)
    writeSteps (Step.pushAll members (.close (groupName kind) :: steps))
termination_by steps => Step.weight steps
decreasing_by
  · simp [Step.weight]
  · simp [Step.weight, Content.Particle.count]
  · simp [Step.weight, Content.Particle.count]
  · simp only [Step.weight_pushAll, Step.weight, Content.Particle.count]
    omega

def writeModelTree (root : Content.Particle) : Writing Unit :=
  writeSteps [.tree root]

def writeContentSpec (content : Content.Spec) : Writing Unit := do
  let summary : List (Text × Text) := [("spec", content.label), ("minified", content.print)]
  match content with
  | .empty => emptyElement "content-model" summary
  | .any => emptyElement "content-model" summary
  | .invalid raw message =>
    emptyElement "content-model" [("spec", content.label), ("raw", raw), ("error", message)]
  | .mixed p =>
    startElement "content-model" summary
    writeModelTree p
    endElement "content-model"
  | .children p =>
    startElement "content-model" summary
    writeModelTree p
    endElement "content-model"

/-! ### Declarations -/

def writeElement (e : Element) : Writing Unit := do
  startElement "element" [("name", e.name), orderAttribute e.order]
  writeContentSpec e.content
  endElement "element"

def writeAttribute (a : Attribute) : Writing Unit := do
  let declared : List (Text × Text) :=
    [("element", a.element), ("name", a.name), ("type", a.kind.print),
      ("mode", a.default.label)]
  let attributes := declared ++ valueAttributes a.default ++ [orderAttribute a.order]
  if a.kind.values.isEmpty then
    emptyElement "attribute" attributes
  else
    startElement "attribute" attributes
    startElement "enumeration" []
    forM a.kind.values (textElement "value" [])
    endElement "enumeration"
    endElement "attribute"

def writeExternalId (id : ExternalId) : Writing Unit := do
  if let some t := id.publicId then
    textElement "publicId" [] t
  if let some t := id.systemId then
    textElement "systemId" [] t

def writeEntity (e : Entity) : Writing Unit := do
  startElement "entity" [("name", e.name), ("type", e.label), orderAttribute e.order]
  match e.definition with
  | .literal value => textElement "value" [] value
  | .external id notationName =>
    writeExternalId id
    if let some n := notationName then
      textElement "notation" [] n
  endElement "entity"

def writeNotation (n : NotationType) : Writing Unit := do
  let attributes : List (Text × Text) := [("name", n.name), orderAttribute n.order]
  if n.id = .none then
    emptyElement "notation" attributes
  else
    startElement "notation" attributes
    writeExternalId n.id
    endElement "notation"

def writeComment (c : Comment) : Writing Unit :=
  textElement "comment" [orderAttribute c.order] c.text

def writeInstruction (i : Instruction) : Writing Unit :=
  textElement "pi" [("target", i.target), orderAttribute i.order] i.data

/-- Writes a block of declarations; one without any is an empty tag. -/
def writeBlock {α : Type} (name : Text) (write : α → Writing Unit) (items : List α) :
    Writing Unit := do
  if items.isEmpty then
    emptyElement name []
  else
    startElement name []
    forM items write
    endElement name

end Writing

namespace Document

open Writing

variable (d : Document)

def writeElements : Writing Unit :=
  writeBlock "elements" writeElement
    (d.graph.elements.filter fun e => d.includes (.element e.name))

def writeAttributes : Writing Unit :=
  writeBlock "attributes" writeAttribute
    (d.graph.attributes.filter fun a => d.includes (.attributeOf a.element a.name))

def writeEntities (scope : Scope) (block : Text) : Writing Unit :=
  writeBlock block writeEntity (d.entities scope)

def writeNotations : Writing Unit :=
  writeBlock "notations" writeNotation
    (d.graph.notations.filter fun n => d.includes (.notationType n.name))

def writeComments : Writing Unit :=
  writeBlock "comments" writeComment d.graph.comments

def writeInstructions : Writing Unit :=
  writeBlock "processingInstructions" writeInstruction d.graph.instructions

def writeHead : Writing Unit := do
  if let some title := d.title then
    textElement "title" [] title
  if let some set := d.filter then
    emptyElement "reachability" [("roots", Text.join [' '] set.roots)]

/-- Writes the whole document, with a line feed behind it. -/
def writeAll : Writing Unit := do
  event .declaration
  startElement "declarations" []
  d.writeHead
  d.writeElements
  d.writeAttributes
  d.writeEntities .parameter "parameterEntities"
  d.writeEntities .general "generalEntities"
  d.writeNotations
  d.writeComments
  d.writeInstructions
  endElement "declarations"
  lineFeed

def write (s : Sink) : Sink × Except Error Unit :=
  ending (d.writeAll ⟨s, .initial⟩)

end Document
end Doctype.Xml
