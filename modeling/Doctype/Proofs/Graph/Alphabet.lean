import Doctype.Proofs.Attribute.Alphabet
import Doctype.Proofs.Content.Alphabet
import Doctype.Proofs.Graph.Build

/-!
Graphs over an alphabet. Every declaration of a graph that is built of events comes from one of
these (`mem_elements_build`, `mem_entities_build` and so on), so its texts are over an alphabet
if those of the events are and the references in the events denote characters of it
(`over_build`).
-/

namespace Doctype

structure Attribute.Over (A : Char → Prop) (a : Attribute) : Prop where
  element : Text.Over A a.element
  name : Text.Over A a.name
  values : ∀ v ∈ a.kind.values, Text.Over A v
  value : ∀ v ∈ a.default.value?, Text.Over A v

theorem toOption_eq_some_iff {ε α : Type} {x : Except ε α} {a : α} :
    x.toOption = some a ↔ x = .ok a := by
  cases x <;> simp [Except.toOption]

/-- A definition that can be declared says its type, and either no value or one with a normal
form. -/
theorem Attribute.Definition.normalized?_eq_some {g : Graph} {limits : Limits}
    {d : Attribute.Definition} {kind : Attribute.Kind} {default : Attribute.Default}
    {references : List Text} (h : d.normalized? g limits = some (kind, default, references)) :
    kind = d.kind ∧ (default.value? = none ∧ references = [] ∨ ∃ raw normalized,
      d.default.value? = some raw ∧
      Attribute.Value.normalize g limits raw d.kind.isTokenized = .ok normalized ∧
      default.value? = some normalized.value ∧ references = normalized.references) := by
  obtain ⟨name, kind', default'⟩ := d
  unfold normalized? at h
  cases default' with
  | required =>
      cases h
      exact ⟨rfl, .inl ⟨rfl, rfl⟩⟩
  | implied =>
      cases h
      exact ⟨rfl, .inl ⟨rfl, rfl⟩⟩
  | fixed raw =>
      obtain ⟨normalized, hrun, heq⟩ := Option.map_eq_some_iff.1 h
      cases heq
      exact ⟨rfl, .inr ⟨raw, normalized, rfl, toOption_eq_some_iff.1 hrun, rfl, rfl⟩⟩
  | plain raw =>
      obtain ⟨normalized, hrun, heq⟩ := Option.map_eq_some_iff.1 h
      cases heq
      exact ⟨rfl, .inr ⟨raw, normalized, rfl, toOption_eq_some_iff.1 hrun, rfl, rfl⟩⟩

namespace Graph

variable {A : Char → Prop} {limits : Limits} {events : List Event}

/-! ### Where declarations come from -/

theorem contentModel_of_mem_elements {e : Element}
    (he : e ∈ (build limits events).graph.elements) :
    ∃ raw, (events.filterMap (·.contentModel? e.name)).getLast? = some raw ∧
      e.content = .ofRaw limits.contentModelDepth raw := by
  have hfind : (build limits events).graph.element? e.name = some e :=
    (Table.find?_eq_some_iff (inserted_build limits events).keyed.elements).2 ⟨he, rfl⟩
  have hcontent := content_build limits events e.name
  rw [hfind] at hcontent
  obtain ⟨raw, hraw, heq⟩ := Option.map_eq_some_iff.1 hcontent.symm
  exact ⟨raw, hraw, heq.symm⟩

theorem mem_elements_build {e : Element} (he : e ∈ (build limits events).graph.elements) :
    ∃ raw, .element e.name raw ∈ events ∧ e.content = .ofRaw limits.contentModelDepth raw := by
  obtain ⟨raw, hraw, hcontent⟩ := contentModel_of_mem_elements he
  obtain ⟨event, hevent, hselected⟩ := List.mem_filterMap.1 (List.mem_of_getLast? hraw)
  refine ⟨raw, ?_, hcontent⟩
  unfold Event.contentModel? at hselected
  split at hselected
  · split at hselected <;> cases hselected
    next howner => exact howner ▸ hevent
  · cases hselected

theorem mem_entities_build {s : Scope} {e : Entity}
    (he : e ∈ (build limits events).graph.entities s) :
    ∃ raw, .entity s e.name raw ∈ events ∧
      Entity.Definition.ofRaw? s raw = some e.definition := by
  have hfind : (build limits events).graph.entity? s e.name = some e :=
    (Table.find?_eq_some_iff ((inserted_build limits events).keyed.entities s)).2 ⟨he, rfl⟩
  have hdefinition := definition_build limits events s e.name
  rw [hfind] at hdefinition
  obtain ⟨event, hevent, hselected⟩ :=
    List.mem_filterMap.1 (List.mem_of_head? hdefinition.symm)
  unfold Event.entityDefinition? at hselected
  split at hselected
  · split at hselected
    · next hkey =>
      obtain ⟨rfl, rfl⟩ := hkey
      exact ⟨_, hevent, hselected⟩
    · cases hselected
  · cases hselected

theorem mem_notations_build {n : NotationType}
    (hn : n ∈ (build limits events).graph.notations) :
    ∃ raw, .notationType n.name raw ∈ events ∧ ExternalId.ofNotation raw = .ok n.id := by
  have hfind : (build limits events).graph.notationType? n.name = some n :=
    (Table.find?_eq_some_iff (inserted_build limits events).keyed.notations).2 ⟨hn, rfl⟩
  have hid := id_build limits events n.name
  rw [hfind] at hid
  obtain ⟨event, hevent, hselected⟩ := List.mem_filterMap.1 (List.mem_of_getLast? hid.symm)
  unfold Event.externalId? at hselected
  split at hselected
  · next owner raw =>
    split at hselected
    · next howner =>
      exact ⟨raw, howner ▸ hevent, toOption_eq_some_iff.1 hselected⟩
    · cases hselected
  · cases hselected

theorem mem_attributes_build {a : Attribute}
    (ha : a ∈ (build limits events).graph.attributes) :
    ∃ body ds d, .attributeList a.element body ∈ events ∧
      Attribute.Definition.parseAll body = .ok ds ∧ d ∈ ds ∧
      d.name = a.name ∧
      d.normalized? (build limits events).graph limits =
        some (a.kind, a.default, a.references) := by
  have hfind : (build limits events).graph.attribute? a.element a.name = some a :=
    (Table.find?_eq_some_iff (inserted_build limits events).keyed.attributes).2 ⟨ha, rfl⟩
  have hattribute := attribute_build limits events a.element a.name
  rw [hfind] at hattribute
  obtain ⟨d, hd, hnormalized⟩ := List.mem_filterMap.1 (List.mem_of_getLast? hattribute.symm)
  obtain ⟨hmem, hname⟩ := List.mem_filter.1 hd
  obtain ⟨event, hevent, hd⟩ := List.mem_flatMap.1 hmem
  unfold Event.attributeDefinitions at hd
  split at hd
  · next owner body =>
    split at hd
    · next howner =>
      cases hparse : Attribute.Definition.parseAll body with
      | error e => simp [hparse, Except.toOption] at hd
      | ok ds =>
          have hmem : d ∈ ds := by simpa [hparse, Except.toOption] using hd
          exact ⟨body, ds, d, howner ▸ hevent, hparse, hmem, by simpa using hname, hnormalized⟩
    · cases hd
  · cases hd

theorem mem_comments_build {c : Comment} (hc : c ∈ (build limits events).graph.comments) :
    .comment c.text ∈ events := by
  rw [comments_build] at hc
  obtain ⟨⟨event, order⟩, hevent, hselected⟩ := List.mem_filterMap.1 hc
  unfold Event.comment? at hselected
  split at hselected
  · next heq =>
    cases heq
    cases hselected
    exact List.fst_mem_of_mem_zipIdx hevent
  · cases hselected

theorem mem_instructions_build {i : Instruction}
    (hi : i ∈ (build limits events).graph.instructions) :
    .instruction i.target i.data ∈ events := by
  rw [instructions_build] at hi
  obtain ⟨⟨event, order⟩, hevent, hselected⟩ := List.mem_filterMap.1 hi
  unfold Event.instruction? at hselected
  split at hselected
  · next heq =>
    cases heq
    cases hselected
    exact List.fst_mem_of_mem_zipIdx hevent
  · cases hselected

/-! ### Their texts -/

structure Over (A : Char → Prop) (g : Graph) : Prop where
  elements : ∀ e ∈ g.elements, Text.Over A e.name ∧ e.content.Over A
  attributes : ∀ a ∈ g.attributes, a.Over A
  entities : ∀ s, ∀ e ∈ g.entities s, Text.Over A e.name ∧ e.definition.Over A
  notations : ∀ n ∈ g.notations, Text.Over A n.name ∧ n.id.Over A
  comments : ∀ c ∈ g.comments, Text.Over A c.text
  instructions : ∀ i ∈ g.instructions, Text.Over A i.target ∧ Text.Over A i.data

theorem over_of_forall (h : ∀ c, A c) (g : Graph) : g.Over A := by
  have htext (t : Text) : Text.Over A t := fun c _ => h c
  exact {
    elements := fun e _ => ⟨htext e.name, e.content.over_of_forall h⟩
    attributes := fun a _ =>
      ⟨htext a.element, htext a.name, fun v _ => htext v, fun v _ => htext v⟩
    entities := fun _ e _ => ⟨htext e.name, e.definition.over_of_forall h⟩
    notations := fun n _ => ⟨htext n.name, n.id.over_of_forall h⟩
    comments := fun c _ => htext c.text
    instructions := fun i _ => ⟨htext i.target, htext i.data⟩ }

section Build

variable (hA : Covers A) (hover : ∀ e ∈ events, e.Over A) (hclean : ∀ e ∈ events, e.Clean A)
include hA hover hclean

theorem over_entity {s : Scope} {e : Entity}
    (he : e ∈ (build limits events).graph.entities s) :
    Text.Over A e.name ∧ e.definition.Over A := by
  obtain ⟨raw, hevent, hread⟩ := mem_entities_build he
  have hname : Text.Over A e.name := hover _ hevent _ (by simp [Event.texts])
  have hraw : Text.Over A raw := hover _ hevent _ (by simp [Event.texts])
  refine ⟨hname, ?_⟩
  generalize e.definition = d at hread ⊢
  unfold Entity.Definition.ofRaw? at hread
  split at hread
  · next value hparse =>
    cases hread
    exact (hclean _ hevent).over_expandChars hparse
      (Entity.Definition.over_of_parse hA hraw hparse)
  · next hparse =>
    cases hread
    exact Entity.Definition.over_of_parse hA hraw hparse
  · next hparse =>
    split at hread <;> cases hread
    exact Entity.Definition.over_of_parse hA hraw hparse
  · cases hread

/-- The replacement texts of general entities, which default values may refer to. -/
theorem readOver_replacement {n u : Text} {e : Entity}
    (he : (build limits events).graph.entity? .general n = some e)
    (hdefinition : e.definition = .literal u) : Attribute.Value.ReadOver A u := by
  have hmem := (Table.mem_of_find?_eq_some he).1
  have hover := (over_entity hA hover hclean hmem).2
  rw [hdefinition] at hover
  refine ⟨hover, fun c hc => ?_⟩
  obtain ⟨raw, hevent, hread⟩ := mem_entities_build hmem
  rw [hdefinition] at hread
  unfold Entity.Definition.ofRaw? at hread
  split at hread
  · next value hparse =>
    cases hread
    exact hclean _ hevent c (.replacement hparse hc)
  · cases hread
  · cases hread
  · cases hread

theorem over_attribute {a : Attribute} (ha : a ∈ (build limits events).graph.attributes) :
    a.Over A := by
  obtain ⟨body, ds, d, hevent, hparse, hd, hname, hnormalized⟩ := mem_attributes_build ha
  have helement : Text.Over A a.element := hover _ hevent _ (by simp [Event.texts])
  have hdefinition :=
    Attribute.Definition.over_of_parseAll
      (hover _ hevent _ (by simp [Event.texts])) hparse d hd
  obtain ⟨hkind, hvalue⟩ := Attribute.Definition.normalized?_eq_some hnormalized
  refine ⟨helement, hname ▸ hdefinition.name, hkind ▸ hdefinition.values, fun v hv => ?_⟩
  rcases hvalue with ⟨hnone, -⟩ | ⟨raw, normalized, hraw, hrun, hsome, -⟩
  · rw [hnone] at hv
    cases hv
  · rw [hsome] at hv
    cases hv
    have hread : Attribute.Value.ReadOver A raw :=
      ⟨hdefinition.value raw hraw, fun c hc => hclean _ hevent c (.default hparse hd hraw hc)⟩
    exact Attribute.Value.over_normalize hA (readOver_replacement hA hover hclean) hread hrun

/-- A graph is over an alphabet that has the characters of the events and those that references
in them denote. -/
theorem over_build : (build limits events).graph.Over A where
  elements e he := by
    obtain ⟨raw, hevent, hcontent⟩ := mem_elements_build he
    rw [hcontent]
    exact ⟨hover _ hevent _ (by simp [Event.texts]),
      Content.Spec.over_ofRaw hA _ (hover _ hevent _ (by simp [Event.texts]))⟩
  attributes a := over_attribute hA hover hclean
  entities s e := over_entity hA hover hclean
  notations n hn := by
    obtain ⟨raw, hevent, hread⟩ := mem_notations_build hn
    exact ⟨hover _ hevent _ (by simp [Event.texts]),
      ExternalId.over_of_ofNotation hA (hover _ hevent _ (by simp [Event.texts])) hread⟩
  comments c hc := hover _ (mem_comments_build hc) _ (by simp [Event.texts])
  instructions i hi :=
    ⟨hover _ (mem_instructions_build hi) _ (by simp [Event.texts]),
      hover _ (mem_instructions_build hi) _ (by simp [Event.texts])⟩

end Build

end Graph
end Doctype
