import Doctype.Proofs.Attribute.Acceptance
import Doctype.Proofs.Attribute.Normalization
import Doctype.Proofs.Attribute.Tokens
import Doctype.Proofs.Content.RoundTrip
import Doctype.Proofs.Graph.Alphabet

/-!
Well-formed graphs. What the parsers and the normal form of values guarantee of one declaration
holds of all declarations of a graph that is built of events, whichever of them took another
one's place (`wellFormed_build`). The entities that a default value refers to are those of the
finished graph, because attribute lists are taken after all entities.
-/

namespace Doctype

open Content

/-- The tree of a content model has the shape that its parser gives it, and its names are
names. -/
structure Element.WellFormed (bound : Nat) (e : Element) : Prop where
  name {n : Text} : e.content.Mentions n → Text.isName n = true
  mixed {p : Particle} : e.content = .mixed p →
    ∃ ns mark, p = Grammar.mixedModel ns mark ∧
    (mark = some .zeroOrMore ∨ mark = none ∧ ns = [])
  children {p : Particle} : e.content = .children p → p.IsGroup ∧ p.IsElementModel ∧
    p.nesting ≤ bound

/-- The type of an attribute lists what it must, a default value that is split into tokens is
in its normal form, and the entities that the value refers to are declared. -/
structure Attribute.WellFormed (g : Graph) (a : Attribute) : Prop where
  kind : a.kind.WellFormed
  value : a.kind ≠ .cdata → ∀ v ∈ a.default.value?, Value.SingleSpaced v
  nodup : a.references.Nodup
  declared : ∀ n ∈ a.references, n ∈ g.generalEntities.map Entity.name
  notPredefined : ∀ n ∈ a.references, n ∉ Value.predefined.map Prod.fst

/-- All declarations of a graph are well-formed, and no parameter entity has a notation. -/
structure Graph.WellFormed (limits : Limits) (g : Graph) : Prop where
  elements : ∀ e ∈ g.elements, e.WellFormed limits.contentModelDepth
  attributes : ∀ a ∈ g.attributes, a.WellFormed g
  parameterEntities : ∀ e ∈ g.parameterEntities, ∀ id notationName,
    e.definition = .external id notationName → notationName = none

/-! ### Declarations -/

theorem Content.Spec.Regular.isName_of_mentions {bound : Nat} {spec : Spec} {n : Text}
    (h : spec.Regular bound) (hn : spec.Mentions n) : Text.isName n = true := by
  obtain ⟨p, hp, hn⟩ := hn
  cases h with
  | empty => cases hp
  | any => cases hp
  | children _ _ hnames _ =>
      cases hp
      exact hnames n hn
  | mixed _ hnames =>
      cases hp
      exact hnames n (mentions_mixedModel_iff.1 hn)

/-- An element is well-formed if its content was parsed, and also if only the marker is kept of
it. -/
theorem Element.wellFormed_of_ofRaw {bound : Nat} {e : Element} {raw : Text}
    (h : e.content = .ofRaw bound raw) : e.WellFormed bound := by
  unfold Spec.ofRaw at h
  split at h
  · next spec hparse =>
    have hregular := h ▸ Spec.regular_of_parse hparse
    refine ⟨hregular.isName_of_mentions, fun hmixed => ?_, fun hchildren => ?_⟩
    · rw [hmixed] at hregular
      cases hregular with
      | mixed hmark _ => exact ⟨_, _, rfl, hmark⟩
    · rw [hchildren] at hregular
      cases hregular with
      | children hgroup hmodel _ hnesting => exact ⟨hgroup, hmodel, hnesting⟩
  · refine ⟨fun hn => ?_, fun hmixed => ?_, fun hchildren => ?_⟩
    · obtain ⟨p, hp, -⟩ := hn
      rw [h] at hp
      cases hp
    · cases h.symm.trans hmixed
    · cases h.symm.trans hchildren

theorem Entity.Definition.ofRaw?_parameter {raw : Text} {id : ExternalId}
    {notationName : Option Text}
    (h : ofRaw? .parameter raw = some (.external id notationName)) : notationName = none := by
  unfold ofRaw? at h
  split at h <;> cases h
  rfl

namespace Attribute

variable {g : Graph} {limits : Limits} {raw : Text} {isTokenized : Bool} {v : Value.Normalized}

theorem Value.nodup_remember {names : List Text} {n : Text} (h : names.Nodup) :
    (remember names n).Nodup := by
  unfold remember
  split
  · exact h
  · next hn => exact List.nodup_append'.2 ⟨h, List.nodup_singleton n, by simpa using hn⟩

theorem Value.references_of_normalize (h : normalize g limits raw isTokenized = .ok v) :
    v.references.Nodup ∧ ∀ n ∈ v.references,
      n ∈ g.generalEntities.map Entity.name ∧ n ∉ predefined.map Prod.fst := by
  obtain ⟨r, hr, rfl⟩ := exists_reads_of_normalize h
  constructor
  · change r.met.eraseDups.Nodup
    rw [← foldl_remember]
    exact List.foldlRecOn _ _ List.nodup_nil fun names hnames n _ => nodup_remember hnames
  · intro n hn
    obtain ⟨⟨e, he⟩, hpredefined⟩ :=
      hr.mem_met (fun m hm => ((segments_pieces raw).reference_mem hm).2) n
        (List.mem_eraseDups.1 hn)
    obtain ⟨hmem, rfl⟩ := Table.mem_of_find?_eq_some he
    exact ⟨List.mem_map_of_mem hmem, hpredefined⟩

theorem Value.singleSpaced_of_normalize (h : normalize g limits raw true = .ok v) :
    SingleSpaced v.value := by
  obtain ⟨r, -, rfl⟩ := exists_reads_of_normalize h
  exact singleSpaced_collapse r.value

/-- An attribute is well-formed if its definition can be read and its value has a normal
form. -/
theorem wellFormed_of_normalized? {a : Attribute} {body : Text} {ds : List Definition}
    {d : Definition} (hparse : Definition.parseAll body = .ok ds) (hd : d ∈ ds)
    (h : d.normalized? g limits = some (a.kind, a.default, a.references)) :
    a.WellFormed g := by
  have hdefinition := (Definition.parseAll_eq_ok_iff.1 hparse).wellFormed d hd
  obtain ⟨hkind, hvalue⟩ := Definition.normalized?_eq_some h
  rcases hvalue with ⟨hnone, hreferences⟩ | ⟨raw, v, -, hrun, hsome, hreferences⟩
  · refine ⟨hkind ▸ hdefinition.kind, fun _ v hv => ?_, ?_, ?_, ?_⟩
    · rw [hnone] at hv
      cases hv
    · rw [hreferences]
      exact List.nodup_nil
    · simp [hreferences]
    · simp [hreferences]
  · obtain ⟨hnodup, hmem⟩ := Value.references_of_normalize hrun
    rw [← hreferences] at hnodup hmem
    refine ⟨hkind ▸ hdefinition.kind, fun hcdata u hu => ?_, hnodup, fun n hn => (hmem n hn).1,
      fun n hn => (hmem n hn).2⟩
    rw [hsome] at hu
    cases hu
    have htokenized : d.kind.isTokenized = true := by
      simpa [Kind.isTokenized, ← hkind] using hcdata
    rw [htokenized] at hrun
    exact Value.singleSpaced_of_normalize hrun

end Attribute

/-! ### Graphs -/

/-- Whatever the events and the limits are, the graph that is built is well-formed. -/
theorem Graph.wellFormed_build (limits : Limits) (events : List Event) :
    (build limits events).graph.WellFormed limits where
  elements e he := by
    obtain ⟨raw, -, hcontent⟩ := mem_elements_build he
    exact Element.wellFormed_of_ofRaw hcontent
  attributes a ha := by
    obtain ⟨body, ds, d, -, hparse, hd, -, hnormalized⟩ := mem_attributes_build ha
    exact Attribute.wellFormed_of_normalized? hparse hd hnormalized
  parameterEntities e he id notationName hexternal := by
    obtain ⟨raw, -, hdefinition⟩ := mem_entities_build (s := .parameter) he
    rw [hexternal] at hdefinition
    exact Entity.Definition.ofRaw?_parameter hdefinition

end Doctype
