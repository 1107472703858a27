import Doctype.Proofs.Graph.Alphabet
import Doctype.Proofs.Xml.Rereading
import Doctype.Proofs.Xml.View

/-!
Which elements a document is made of. Every declaration is one element, and the elements inside
it are of a few forms (`Part`), which is shown once, by recursion over the declaration
(`isElement_elementTags` and so on). With the blocks around them (`Written`) this is the whole
document (`Document.exists_tags`). What is to be known of all tags of a document is then
checked for these forms: that names are names of XML (`Written.plain`), which elements hold
text, and which tell a place or are attributes (`Nested.told_eq_nil`, `IsElement.told_eq`).
-/

namespace Doctype.Xml

/-- What stands between the start and the end of an element; without any it is an empty tag. -/
inductive Filling
  | nothing
  | text (u : Text)
  | elements

def Filling.isText : Filling → Bool
  | text _ => true
  | _ => false

/-- The tags of elements one behind the other that have a property, also those inside them. -/
inductive Nested (P : Text → List (Text × Text) → Filling → Prop) : List Tag → Prop
  | nil : Nested P []
  | empty {name : Text} {attributes : List (Text × Text)} {tags : List Tag} :
      P name attributes .nothing → Nested P tags → Nested P (.empty name attributes :: tags)
  | element {name : Text} {attributes : List (Text × Text)} {u : Text} {tags : List Tag} :
      P name attributes (.text u) → Nested P tags →
        Nested P (Tag.element name attributes u ++ tags)
  | enclosed {name : Text} {attributes : List (Text × Text)} {inner tags : List Tag} :
      P name attributes .elements → Nested P inner → Nested P tags →
        Nested P (.start name attributes :: (inner ++ .close name :: tags))

/-- The tags of one element. The elements inside it have a property. -/
inductive IsElement (P : Text → List (Text × Text) → Filling → Prop) (name : Text)
    (attributes : List (Text × Text)) : Filling → List Tag → Prop
  | empty : IsElement P name attributes .nothing [.empty name attributes]
  | element (u : Text) :
      IsElement P name attributes (.text u) (Tag.element name attributes u)
  | enclosed {inner : List Tag} : Nested P inner →
      IsElement P name attributes .elements (.start name attributes :: inner ++ [.close name])

section Shape

variable {P Q : Text → List (Text × Text) → Filling → Prop} {name : Text}
variable {attributes : List (Text × Text)} {filling : Filling} {tags tags' : List Tag}

namespace Nested

theorem append (h : Nested P tags) (h' : Nested P tags') : Nested P (tags ++ tags') := by
  induction h with
  | nil => exact h'
  | empty hP _ ih => exact .empty hP ih
  | element hP _ ih =>
      rw [List.append_assoc]
      exact .element hP ih
  | enclosed hP hinner _ _ ih =>
      rw [List.cons_append, List.append_assoc, List.cons_append]
      exact .enclosed hP hinner ih

theorem flatMap {α : Type} {f : α → List Tag} {items : List α}
    (h : ∀ a ∈ items, Nested P (f a)) : Nested P (items.flatMap f) := by
  induction items with
  | nil => exact .nil
  | cons a items ih =>
      obtain ⟨ha, hitems⟩ := List.forall_mem_cons.1 h
      exact ha.append (ih hitems)

theorem mono (h : Nested P tags)
    (hP : ∀ {name attributes filling}, P name attributes filling → Q name attributes filling) :
    Nested Q tags := by
  induction h with
  | nil => exact .nil
  | empty hp _ ih => exact .empty (hP hp) ih
  | element hp _ ih => exact .element (hP hp) ih
  | enclosed hp _ _ ihinner ih => exact .enclosed (hP hp) ihinner ih

theorem optionTags {o : Option Text} (ho : ∀ u ∈ o, P name [] (.text u)) :
    Nested P (optionTags name o) := by
  cases o with
  | none => exact .nil
  | some u => exact .element (ho u rfl) .nil

end Nested

theorem IsElement.nested (h : IsElement P name attributes filling tags)
    (hP : ∀ {name attributes filling}, P name attributes filling → Q name attributes filling)
    (hQ : Q name attributes filling) : Nested Q tags := by
  cases h with
  | empty => exact .empty hQ .nil
  | element u => exact .element hQ .nil
  | enclosed hinner => exact .enclosed hQ (hinner.mono hP) .nil

theorem Nested.blockTags {α : Type} {f : α → List Tag} {items : List α}
    (hblock : ∀ filling : Filling, filling.isText = false → P name [] filling)
    (h : ∀ a ∈ items, Nested P (f a)) : Nested P (blockTags name f items) := by
  unfold Xml.blockTags
  split
  · exact .empty (hblock _ rfl) .nil
  · exact .enclosed (hblock _ rfl) (.flatMap h) .nil

end Shape

/-! ### Inside declarations -/

def textNames : List Text :=
  ["value", "publicId", "systemId", "notation"]

/-- The elements inside declarations. Their texts are over the alphabet. -/
inductive Part (A : Char → Prop) : Text → List (Text × Text) → Filling → Prop
  | child {n : Text} (mark : Option Content.Mark) :
      Text.Over A n → Part A "child" (markAttributes mark) (.text n)
  | pcdata : Part A "pcdata" [] .nothing
  | group (kind : Content.GroupKind) (mark : Option Content.Mark) :
      Part A (groupName kind) (markAttributes mark) .elements
  | model {c : Content.Spec} {filling : Filling} : c.Over A → filling.isText = false →
      Part A "content-model" [("spec", c.label), ("minified", c.print)] filling
  | invalid {raw message : Text} : Text.Over A raw → Text.Over A message →
      Part A "content-model" [("spec", (Content.Spec.invalid raw message).label), ("raw", raw),
        ("error", message)] .nothing
  | enumeration : Part A "enumeration" [] .elements
  | text {name u : Text} : name ∈ textNames → Text.Over A u → Part A name [] (.text u)

section Parts

variable {A : Char → Prop}

mutual

theorem nested_particleTags (p : Content.Particle) (h : ∀ n, p.Mentions n → Text.Over A n) :
    Nested (Part A) (particleTags p) := by
  cases p with
  | name n mark => exact .element (.child mark (h n .name)) .nil
  | pcdata => exact .empty .pcdata .nil
  | group kind members mark =>
      have hmembers := nested_membersTags members fun p hp n hn => h n (.member hp hn)
      exact .enclosed (.group kind mark) hmembers .nil

theorem nested_membersTags (ps : List Content.Particle)
    (h : ∀ p ∈ ps, ∀ n, p.Mentions n → Text.Over A n) : Nested (Part A) (membersTags ps) := by
  cases ps with
  | nil => exact .nil
  | cons p ps =>
      obtain ⟨hp, hps⟩ := List.forall_mem_cons.1 h
      exact (nested_particleTags p hp).append (nested_membersTags ps hps)

end

theorem nested_contentTags {c : Content.Spec} (h : c.Over A) :
    Nested (Part A) (contentTags c) := by
  have htree {p : Content.Particle} (hp : ∀ n, p.Mentions n → Text.Over A n) :
      Nested (Part A) (treeTags [.tree p]) := by
    rw [treeTags_tree]
    exact nested_particleTags p hp
  cases c with
  | mixed p => exact .enclosed (.model h rfl) (htree h) .nil
  | children p => exact .enclosed (.model h rfl) (htree h) .nil
  | invalid raw message => exact .empty (.invalid h.1 h.2) .nil
  | _ => exact .empty (.model h rfl) .nil

theorem nested_idTags {id : ExternalId} (h : id.Over A) : Nested (Part A) (idTags id) := by
  rw [idTags_eq]
  exact (Nested.optionTags fun u hu => .text (by decide) (h.1 u hu)).append
    (.optionTags fun u hu => .text (by decide) (h.2 u hu))

theorem nested_definitionTags {d : Entity.Definition} (h : d.Over A) :
    Nested (Part A) (definitionTags d) := by
  cases d with
  | literal v => exact .element (.text (by decide) h) .nil
  | external id n =>
      rw [definitionTags_external]
      exact (nested_idTags h.1).append (.optionTags fun u hu => .text (by decide) (h.2 u hu))

/-! ### Declarations -/

theorem isElement_elementTags {e : Element} (h : e.content.Over A) :
    IsElement (Part A) "element"
      [("name", e.name), orderAttribute e.order] .elements (elementTags e) :=
  .enclosed (nested_contentTags h)

theorem isElement_attributeTags {a : Attribute} (h : ∀ v ∈ a.kind.values, Text.Over A v) :
    ∃ filling : Filling, filling.isText = false ∧
      IsElement (Part A) "attribute" (declaredAttributes a) filling (attributeTags a) := by
  rw [attributeTags_eq]
  split
  · exact ⟨.nothing, rfl, .empty⟩
  · refine ⟨.elements, rfl, ?_⟩
    have hvalues : Nested (Part A) (a.kind.values.flatMap (Tag.element "value" [])) :=
      .flatMap fun v hv => .element (.text (by decide) (h v hv)) .nil
    have hlist : Nested (Part A) (.start "enumeration" [] ::
        (a.kind.values.flatMap (Tag.element "value" []) ++ [.close "enumeration"])) :=
      .enclosed .enumeration hvalues .nil
    have helement : IsElement (Part A) "attribute" (declaredAttributes a) .elements _ :=
      .enclosed hlist
    simpa only [List.cons_append, List.append_assoc, List.nil_append] using helement

theorem isElement_entityTags {e : Entity} (h : e.definition.Over A) :
    IsElement (Part A) "entity" [("name", e.name), ("type", e.label), orderAttribute e.order]
      .elements (entityTags e) :=
  .enclosed (nested_definitionTags h)

theorem isElement_notationTags {n : NotationType} (h : n.id.Over A) :
    ∃ filling : Filling, filling.isText = false ∧
      IsElement (Part A) "notation" [("name", n.name), orderAttribute n.order] filling
        (notationTags n) := by
  unfold notationTags
  dsimp only
  split
  · exact ⟨.nothing, rfl, .empty⟩
  · exact ⟨.elements, rfl, .enclosed (nested_idTags h)⟩

theorem isElement_commentTags (c : Comment) : IsElement (Part A) "comment"
    [orderAttribute c.order] (.text c.text) (commentTags c) :=
  .element c.text

theorem isElement_instructionTags (i : Instruction) : IsElement (Part A) "pi"
    [("target", i.target), orderAttribute i.order] (.text i.data) (instructionTags i) :=
  .element i.data

end Parts

/-! ### Documents -/

def blockNames : List Text :=
  ["declarations", "elements", "attributes", "parameterEntities", "generalEntities",
    "notations", "comments", "processingInstructions"]

/-- The elements of a document. Their texts are over the alphabet. -/
inductive Written (A : Char → Prop) : Text → List (Text × Text) → Filling → Prop
  | part {name : Text} {attributes : List (Text × Text)} {filling : Filling} :
      Part A name attributes filling → Written A name attributes filling
  | element {e : Element} : Text.Over A e.name →
      Written A "element" [("name", e.name), orderAttribute e.order] .elements
  | attributeOf {a : Attribute} {filling : Filling} : a.Over A → filling.isText = false →
      Written A "attribute" (declaredAttributes a) filling
  | entity {e : Entity} : Text.Over A e.name →
      Written A "entity"
        [("name", e.name), ("type", e.label), orderAttribute e.order] .elements
  | notationType {n : NotationType} {filling : Filling} : Text.Over A n.name →
      filling.isText = false →
        Written A "notation" [("name", n.name), orderAttribute n.order] filling
  | comment {c : Comment} : Text.Over A c.text →
      Written A "comment" [orderAttribute c.order] (.text c.text)
  | instruction {i : Instruction} : Text.Over A i.target → Text.Over A i.data →
      Written A "pi" [("target", i.target), orderAttribute i.order] (.text i.data)
  | block {name : Text} {filling : Filling} : name ∈ blockNames → filling.isText = false →
      Written A name [] filling
  | title {t : Text} : Text.Over A t → Written A "title" [] (.text t)
  | filter {roots : Text} : Text.Over A roots →
      Written A "reachability" [("roots", roots)] .nothing

section Documents

variable {A : Char → Prop} {d : Document}

theorem nested_headTags (htitle : ∀ t ∈ d.title, Text.Over A t)
    (hroots : ∀ t ∈ d.view.roots, Text.Over A t) : Nested (Written A) d.headTags := by
  rw [Document.headTags_eq]
  refine (Nested.optionTags fun t ht => .title (htitle t ht)).append ?_
  cases hview : d.view.roots with
  | none => exact .nil
  | some roots => exact .empty (.filter (hroots roots hview)) .nil

theorem nested_bodyTags (h : d.graph.Over A) : Nested (Written A) d.bodyTags := by
  have hentities (s : Scope) (e : Entity) (he : e ∈ d.entities s) :
      Nested (Written A) (entityTags e) := by
    obtain ⟨hname, hdefinition⟩ := h.entities s e (List.mem_filter.1 he).1
    exact (isElement_entityTags hdefinition).nested .part (.entity hname)
  refine .append (.append (.append (.append (.append (.append ?_ ?_) ?_) ?_) ?_) ?_) ?_
  · refine .blockTags (fun _ => .block (by decide)) fun e he => ?_
    obtain ⟨hname, hcontent⟩ := h.elements e (List.mem_filter.1 he).1
    exact (isElement_elementTags hcontent).nested .part (.element hname)
  · refine .blockTags (fun _ => .block (by decide)) fun a ha => ?_
    have hover := h.attributes a (List.mem_filter.1 ha).1
    obtain ⟨filling, hfilling, helement⟩ := isElement_attributeTags hover.values
    exact helement.nested .part (.attributeOf hover hfilling)
  · exact .blockTags (fun _ => .block (by decide)) (hentities .parameter)
  · exact .blockTags (fun _ => .block (by decide)) (hentities .general)
  · refine .blockTags (fun _ => .block (by decide)) fun n hn => ?_
    obtain ⟨hname, hid⟩ := h.notations n (List.mem_filter.1 hn).1
    obtain ⟨filling, hfilling, helement⟩ := isElement_notationTags hid
    exact helement.nested .part (.notationType hname hfilling)
  · refine .blockTags (fun _ => .block (by decide)) fun c hc => ?_
    exact (isElement_commentTags c).nested .part (.comment (h.comments c hc))
  · refine .blockTags (fun _ => .block (by decide)) fun i hi => ?_
    obtain ⟨htarget, hdata⟩ := h.instructions i hi
    exact (isElement_instructionTags i).nested .part (.instruction htarget hdata)

/-- A document is its declaration in front of one element. -/
theorem Document.exists_tags (hgraph : d.graph.Over A) (htitle : ∀ t ∈ d.title, Text.Over A t)
    (hroots : ∀ t ∈ d.view.roots, Text.Over A t) :
    ∃ root, Nested (Written A) root ∧ d.tags = .declaration :: root := by
  refine ⟨.start "declarations" [] :: d.headTags ++ d.bodyTags ++ [.close "declarations"], ?_,
    rfl⟩
  rw [List.cons_append, List.cons_append]
  exact .enclosed (.block (by decide) rfl)
    ((nested_headTags htitle hroots).append (nested_bodyTags hgraph)) .nil

/-- Whatever texts stand in it. -/
theorem Document.exists_tags_of_forall (d : Document) :
    ∃ root, Nested (Written fun _ => True) root ∧ d.tags = .declaration :: root :=
  exists_tags (d.graph.over_of_forall fun _ => trivial) (fun _ _ _ _ => trivial)
    fun _ _ _ _ => trivial

end Documents

/-! ### Names, values and texts -/

def ValuesOver (A : Char → Prop) (attributes : List (Text × Text)) : Prop :=
  ∀ p ∈ attributes, Text.Over A p.2

def Filling.Over (A : Char → Prop) : Filling → Prop
  | text u => Text.Over A u
  | _ => True

/-- Elements with names of XML, of which no two attributes have one name, and with values and
texts over the alphabet. -/
structure Plain (A : Char → Prop) (name : Text) (attributes : List (Text × Text))
    (filling : Filling) : Prop where
  opening : isOpening name attributes = true
  values : ValuesOver A attributes
  filling : filling.Over A

section Plain

variable {A : Char → Prop} {name value : Text} {attributes attributes' : List (Text × Text)}

theorem Filling.over_of_isText {filling : Filling} (h : filling.isText = false) :
    filling.Over A := by
  cases filling with
  | text u => cases h
  | _ => trivial

theorem valuesOver_nil : ValuesOver A [] := by
  simp [ValuesOver]

theorem valuesOver_cons (hvalue : Text.Over A value) (h : ValuesOver A attributes) :
    ValuesOver A ((name, value) :: attributes) :=
  List.forall_mem_cons.2 ⟨hvalue, h⟩

theorem valuesOver_append (h : ValuesOver A attributes) (h' : ValuesOver A attributes') :
    ValuesOver A (attributes ++ attributes') :=
  List.forall_mem_append.2 ⟨h, h'⟩

variable (hA : Covers A)
include hA

theorem valuesOver_orderAttribute (order : Nat) : ValuesOver A [orderAttribute order] :=
  valuesOver_cons (hA.decimal order) valuesOver_nil

theorem valuesOver_markAttributes (mark : Option Content.Mark) :
    ValuesOver A (markAttributes mark) := by
  cases mark with
  | none => exact valuesOver_nil
  | some m => exact valuesOver_cons (hA.text (by cases m <;> decide)) valuesOver_nil

theorem valuesOver_declaredAttributes {a : Attribute} (h : a.Over A) :
    ValuesOver A (declaredAttributes a) := by
  have hlabel : Text.Over A a.default.label := by
    cases a.default <;> exact hA.text rfl
  have hvalue : ValuesOver A (valueAttributes a.default) := by
    unfold valueAttributes
    cases hv : a.default.value? with
    | none => exact valuesOver_nil
    | some v => exact valuesOver_cons (h.value v hv) valuesOver_nil
  have hdeclared : ValuesOver A [("element", a.element), ("name", a.name),
      ("type", a.kind.print), ("mode", a.default.label)] :=
    valuesOver_cons h.element <| valuesOver_cons h.name <|
      valuesOver_cons (Attribute.Kind.over_print hA h.values) <|
        valuesOver_cons hlabel valuesOver_nil
  exact valuesOver_append (valuesOver_append hdeclared hvalue)
    (valuesOver_orderAttribute hA a.order)

variable {filling : Filling}

theorem Part.plain (h : Part A name attributes filling) : Plain A name attributes filling := by
  cases h with
  | child mark hn => exact ⟨by cases mark <;> rfl, valuesOver_markAttributes hA mark, hn⟩
  | pcdata => exact ⟨rfl, valuesOver_nil, trivial⟩
  | group kind mark =>
      exact ⟨by cases kind <;> cases mark <;> rfl, valuesOver_markAttributes hA mark, trivial⟩
  | @model c _ hc hfilling =>
      refine ⟨rfl, ?_, Filling.over_of_isText hfilling⟩
      exact valuesOver_cons (c.over_label hA)
        (valuesOver_cons (Content.Spec.over_print hA hc) valuesOver_nil)
  | @invalid raw message hraw hmessage =>
      have hreport : ValuesOver A [("raw", raw), ("error", message)] :=
        valuesOver_cons hraw (valuesOver_cons hmessage valuesOver_nil)
      exact ⟨rfl, valuesOver_cons (Content.Spec.over_label hA _) hreport, trivial⟩
  | enumeration => exact ⟨by decide, valuesOver_nil, trivial⟩
  | text hname hu =>
      refine ⟨?_, valuesOver_nil, hu⟩
      revert name
      decide

theorem Written.plain (h : Written A name attributes filling) :
    Plain A name attributes filling := by
  cases h with
  | part h => exact h.plain hA
  | @element e hname =>
      exact ⟨rfl, valuesOver_cons hname (valuesOver_orderAttribute hA e.order), trivial⟩
  | @attributeOf a _ ha hfilling =>
      refine ⟨?_, valuesOver_declaredAttributes hA ha, Filling.over_of_isText hfilling⟩
      obtain ⟨element, name, kind, default, references, order⟩ := a
      cases default <;> rfl
  | @entity e hname =>
      have hlabel : Text.Over A e.label := by
        unfold Entity.label
        split <;> exact hA.text (by decide)
      exact ⟨rfl, valuesOver_cons hname (valuesOver_cons hlabel
        (valuesOver_orderAttribute hA e.order)), trivial⟩
  | @notationType n _ hname hfilling =>
      exact ⟨rfl, valuesOver_cons hname (valuesOver_orderAttribute hA n.order),
        Filling.over_of_isText hfilling⟩
  | @comment c htext => exact ⟨rfl, valuesOver_orderAttribute hA c.order, htext⟩
  | @instruction i htarget hdata =>
      exact ⟨rfl, valuesOver_cons htarget (valuesOver_orderAttribute hA i.order), hdata⟩
  | block hname hfilling =>
      refine ⟨?_, valuesOver_nil, Filling.over_of_isText hfilling⟩
      revert name
      decide
  | title ht => exact ⟨by decide, valuesOver_nil, ht⟩
  | filter hroots => exact ⟨rfl, valuesOver_cons hroots valuesOver_nil, trivial⟩

end Plain

/-! ### What the tags tell -/

/-- What the tags that begin elements tell. -/
def told {β : Type} (g : Text → List (Text × Text) → Option β) (tags : List Tag) : List β :=
  tags.filterMap fun tag => match tag with
    | .start name attributes => g name attributes
    | .empty name attributes => g name attributes
    | _ => none

section Told

variable {β : Type} {g : Text → List (Text × Text) → Option β}
variable {P : Text → List (Text × Text) → Filling → Prop} {name : Text}
variable {attributes : List (Text × Text)} {filling : Filling} {tags tags' : List Tag}

theorem told_append (g : Text → List (Text × Text) → Option β) (tags tags' : List Tag) :
    told g (tags ++ tags') = told g tags ++ told g tags' :=
  List.filterMap_append

theorem told_empty (g : Text → List (Text × Text) → Option β) (name : Text)
    (attributes : List (Text × Text)) :
    told g [.empty name attributes] = (g name attributes).toList := by
  unfold told
  cases hg : g name attributes <;> simp [hg]

theorem told_element (g : Text → List (Text × Text) → Option β) (name : Text)
    (attributes : List (Text × Text)) (u : Text) :
    told g (Tag.element name attributes u) = (g name attributes).toList := by
  unfold told Tag.element
  cases hg : g name attributes <;> simp [hg]

theorem told_enclosed (g : Text → List (Text × Text) → Option β) (name : Text)
    (attributes : List (Text × Text)) (tags : List Tag) :
    told g (.start name attributes :: tags ++ [.close name]) =
      (g name attributes).toList ++ told g tags := by
  unfold told
  cases hg : g name attributes <;> simp [hg]

/-- If elements of some forms tell nothing, such elements and those inside them tell
nothing. -/
theorem Nested.told_eq_nil (h : Nested P tags)
    (hP : ∀ {name attributes filling}, P name attributes filling → g name attributes = none) :
    told g tags = [] := by
  induction h with
  | nil => rfl
  | @empty name attributes tags hp _ ih =>
      have hsplit : Tag.empty name attributes :: tags = [.empty name attributes] ++ tags := rfl
      rw [hsplit, told_append, told_empty, hP hp, ih]
      rfl
  | element hp _ ih =>
      rw [told_append, told_element, hP hp, ih]
      rfl
  | @enclosed name attributes inner tags hp _ _ ihinner ih =>
      have hsplit : Tag.start name attributes :: (inner ++ .close name :: tags) =
          (.start name attributes :: inner ++ [.close name]) ++ tags := by simp
      rw [hsplit, told_append, told_enclosed, hP hp, ihinner, ih]
      rfl

/-- Then an element tells only what its own tag does. -/
theorem IsElement.told_eq (h : IsElement P name attributes filling tags)
    (hP : ∀ {name attributes filling}, P name attributes filling → g name attributes = none) :
    told g tags = (g name attributes).toList := by
  cases h with
  | empty => exact told_empty g name attributes
  | element u => exact told_element g name attributes u
  | enclosed hinner => rw [told_enclosed, hinner.told_eq_nil hP, List.append_nil]

theorem told_blockTags {α : Type} (f : α → List Tag) (items : List α) :
    told g (blockTags name f items) =
      (g name []).toList ++ items.flatMap fun a => told g (f a) := by
  unfold blockTags
  split
  · next hempty =>
    rw [List.isEmpty_iff.1 hempty, told_empty]
    exact (List.append_nil _).symm
  · rw [told_enclosed]
    exact congrArg _ (List.filterMap_flatMap ..)

end Told
end Doctype.Xml
