import Doctype.Proofs.Content.Grammar
import Doctype.Proofs.Graph.Positions
import Doctype.Proofs.Text.Blank
import Doctype.Reachable

/-!
What documents with given roots need. `Graph.Needs` says which declarations these are, one rule
for each way in which a declaration depends on another one; the rules are about declarations
that are there, so a name that is not declared leads nowhere. All rules but that for the roots
go along `Graph.dependencies` (`Needs.of_dependencies`, `Needs.along`).
-/

namespace Doctype.Graph

variable {g : Graph} {roots : List Text} {j k : Key}

/-- `g.Needs roots k`: a document with one of the roots needs the declaration with the key
`k`. -/
inductive Needs (g : Graph) (roots : List Text) : Key → Prop
  | root {r : Text} {d : Element} :
      r ∈ roots → g.element? r = some d → Needs g roots (.element r)
  | child {e n : Text} {d d' : Element} :
      Needs g roots (.element e) → g.element? e = some d → d.content.Mentions n →
        g.element? n = some d' → Needs g roots (.element n)
  | attributeOf {e n : Text} {a : Attribute} :
      Needs g roots (.element e) → g.attribute? e n = some a → Needs g roots (.attributeOf e n)
  | listedNotation {e n m : Text} {a : Attribute} {names : List Text} {d : NotationType} :
      Needs g roots (.attributeOf e n) → g.attribute? e n = some a →
      a.kind = .notations names →
        m ∈ names → g.notationType? m = some d → Needs g roots (.notationType m)
  | namedEntity {e n m value : Text} {a : Attribute} {d : Entity} :
      Needs g roots (.attributeOf e n) → g.attribute? e n = some a →
        a.kind = .entity ∨ a.kind = .entities → a.default.value? = some value →
        Text.IsRun isWhiteSpace m value → g.entity? .general m = some d →
        Needs g roots (.entity .general m)
  | referencedEntity {e n m : Text} {a : Attribute} {d : Entity} :
      Needs g roots (.attributeOf e n) → g.attribute? e n = some a → m ∈ a.references →
        g.entity? .general m = some d → Needs g roots (.entity .general m)
  | innerEntity {n m value : Text} {d d' : Entity} :
      Needs g roots (.entity .general n) → g.entity? .general n = some d →
        d.definition = .literal value → m ∈ Reference.entities value →
        g.entity? .general m = some d' → Needs g roots (.entity .general m)
  | unparsedNotation {n m : Text} {d : Entity} {id : ExternalId} {d' : NotationType} :
      Needs g roots (.entity .general n) → g.entity? .general n = some d →
        d.definition = .external id (some m) → g.notationType? m = some d' →
        Needs g roots (.notationType m)

/-! ### Declared keys -/

@[simp] theorem element_mem_keys_iff {n : Text} :
    .element n ∈ g.keys ↔ ∃ d, g.element? n = some d := by
  simp [mem_keys_iff, contains, Option.isSome_iff_exists]

@[simp] theorem attributeOf_mem_keys_iff {e n : Text} :
    .attributeOf e n ∈ g.keys ↔ ∃ a, g.attribute? e n = some a := by
  simp [mem_keys_iff, contains, Option.isSome_iff_exists]

@[simp] theorem entity_mem_keys_iff {s : Scope} {n : Text} :
    .entity s n ∈ g.keys ↔ ∃ d, g.entity? s n = some d := by
  simp [mem_keys_iff, contains, Option.isSome_iff_exists]

@[simp] theorem notationType_mem_keys_iff {n : Text} :
    .notationType n ∈ g.keys ↔ ∃ d, g.notationType? n = some d := by
  simp [mem_keys_iff, contains, Option.isSome_iff_exists]

/-! ### Dependencies -/

def listedNotations (a : Attribute) : List Text :=
  match a.kind with
  | .notations names => names
  | _ => []

def followedEntities (a : Attribute) : List Text :=
  let named :=
    if a.kind = .entity ∨ a.kind = .entities then Text.words (a.default.value?.getD []) else []
  named ++ a.references

def attributeDependencies (a : Attribute) : List Key :=
  (listedNotations a).map .notationType ++ (followedEntities a).map (.entity .general)

def entityDependencies (e : Entity) : List Key :=
  (innerEntities e).map (.entity .general) ++ (e.notationName?.toList).map .notationType

/-- The keys of what a declaration depends on, whether these are declared or not. -/
def dependencies (g : Graph) : Key → List Key
  | .element name =>
    (match g.element? name with
      | some e => e.content.elementNames.map .element
      | none => []) ++
    (g.attributesOf name).map fun a => .attributeOf a.element a.name
  | .attributeOf element name =>
    match g.attribute? element name with
    | some a => attributeDependencies a
    | none => []
  | .entity .general name =>
    match g.entity? .general name with
    | some e => entityDependencies e
    | none => []
  | .entity .parameter _ => []
  | .notationType _ => []

theorem dependencies_element {e : Text} {d : Element} (h : g.element? e = some d) :
    g.dependencies (.element e) = d.content.elementNames.map .element ++
      (g.attributesOf e).map fun a => .attributeOf a.element a.name := by
  simp [dependencies, h]

theorem dependencies_attributeOf {e n : Text} {a : Attribute}
    (h : g.attribute? e n = some a) :
    g.dependencies (.attributeOf e n) = attributeDependencies a := by
  simp [dependencies, h]

theorem dependencies_entity {n : Text} {d : Entity} (h : g.entity? .general n = some d) :
    g.dependencies (.entity .general n) = entityDependencies d := by
  simp [dependencies, h]

theorem Inserted.attribute?_of_mem_attributesOf (h : g.Inserted) {e : Text} {a : Attribute}
    (ha : a ∈ g.attributesOf e) : a.element = e ∧ g.attribute? e a.name = some a := by
  obtain ⟨hmem, rfl⟩ : a ∈ g.attributes ∧ a.element = e := by
    simpa [h.attributesOf_eq] using ha
  exact ⟨rfl, (Table.find?_eq_some_iff h.keyed.attributes).2 ⟨hmem, rfl⟩⟩

theorem mem_attributesOf_iff (h : g.Inserted) {e : Text} :
    (∃ a ∈ g.attributesOf e, k = .attributeOf a.element a.name) ↔
      ∃ n a, g.attribute? e n = some a ∧ k = .attributeOf e n := by
  constructor
  · rintro ⟨a, ha, rfl⟩
    obtain ⟨rfl, hfind⟩ := h.attribute?_of_mem_attributesOf ha
    exact ⟨a.name, a, hfind, rfl⟩
  · rintro ⟨n, a, ha, rfl⟩
    obtain ⟨hmem, hkey⟩ := Table.mem_of_find?_eq_some ha
    obtain ⟨rfl, rfl⟩ : a.element = e ∧ a.name = n := by simpa [attributeKey] using hkey
    exact ⟨a, by simpa [h.attributesOf_eq] using hmem, rfl⟩

theorem mem_dependencies_element_iff (h : g.Inserted) {e : Text} :
    k ∈ g.dependencies (.element e) ↔
      (∃ d n, g.element? e = some d ∧ d.content.Mentions n ∧ k = .element n) ∨
        ∃ n a, g.attribute? e n = some a ∧ k = .attributeOf e n := by
  rw [← mem_attributesOf_iff h]
  simp only [dependencies, List.mem_append, List.mem_map, @eq_comm Key k]
  refine or_congr_left ?_
  cases g.element? e with
  | none => simp
  | some d => simp [Content.Spec.mem_elementNames_iff]

theorem mem_attributeDependencies_iff {a : Attribute} :
    k ∈ attributeDependencies a ↔
      (∃ names m, a.kind = .notations names ∧ m ∈ names ∧ k = .notationType m) ∨
      (∃ value m, (a.kind = .entity ∨ a.kind = .entities) ∧ a.default.value? = some value ∧
        Text.IsRun isWhiteSpace m value ∧ k = .entity .general m) ∨
      ∃ m ∈ a.references, k = .entity .general m := by
  have hnamed (m : Text) :
      m ∈ (if a.kind = .entity ∨
        a.kind = .entities then Text.words (a.default.value?.getD []) else []) ↔
        ∃ value, (a.kind = .entity ∨ a.kind = .entities) ∧ a.default.value? = some value ∧
          Text.IsRun isWhiteSpace m value := by
    by_cases hkind : a.kind = .entity ∨ a.kind = .entities
    · rw [if_pos hkind, Text.mem_words_iff]
      cases a.default.value? with
      | none => simp [Text.not_isRun_nil]
      | some value => simp [hkind]
    · simp [hkind]
  unfold attributeDependencies followedEntities
  rw [List.mem_append, List.map_append, List.mem_append]
  refine or_congr ?_ (or_congr ?_ ?_)
  · unfold listedNotations
    cases a.kind <;> simp [@eq_comm Key k]
  · constructor
    · intro h
      obtain ⟨m, hm, rfl⟩ := List.mem_map.1 h
      obtain ⟨value, hkind, hvalue, hrun⟩ := (hnamed m).1 hm
      exact ⟨value, m, hkind, hvalue, hrun, rfl⟩
    · rintro ⟨value, m, hkind, hvalue, hrun, rfl⟩
      exact List.mem_map_of_mem ((hnamed m).2 ⟨value, hkind, hvalue, hrun⟩)
  · simp [@eq_comm Key k]

theorem mem_entityDependencies_iff {d : Entity} :
    k ∈ entityDependencies d ↔
      (∃ value m, d.definition = .literal value ∧ m ∈ Reference.entities value ∧
        k = .entity .general m) ∨
      ∃ id m, d.definition = .external id (some m) ∧ k = .notationType m := by
  unfold entityDependencies innerEntities Entity.notationName?
  cases d.definition with
  | literal value => simp [@eq_comm Key k]
  | external id notationName => cases notationName <;> simp [@eq_comm Key k]

/-! ### Needs along dependencies -/

/-- What a declaration depends on is needed if it is needed itself. -/
theorem Needs.of_dependencies (hg : g.Inserted) (h : Needs g roots j)
    (hk : k ∈ g.dependencies j) (hkeys : k ∈ g.keys) : Needs g roots k := by
  cases j with
  | element e =>
      rcases (mem_dependencies_element_iff hg).1 hk with ⟨d, n, hd, hn, rfl⟩ | ⟨n, a, ha, rfl⟩
      · obtain ⟨d', hd'⟩ := element_mem_keys_iff.1 hkeys
        exact .child h hd hn hd'
      · exact .attributeOf h ha
  | attributeOf e n =>
      cases ha : g.attribute? e n with
      | none => simp [dependencies, ha] at hk
      | some a =>
          rw [dependencies_attributeOf ha] at hk
          rcases mem_attributeDependencies_iff.1 hk with
            ⟨names, m, hkind, hm, rfl⟩ | ⟨value, m, hkind, hvalue, hrun, rfl⟩ | ⟨m, hm, rfl⟩
          · obtain ⟨d, hd⟩ := notationType_mem_keys_iff.1 hkeys
            exact .listedNotation h ha hkind hm hd
          · obtain ⟨d, hd⟩ := entity_mem_keys_iff.1 hkeys
            exact .namedEntity h ha hkind hvalue hrun hd
          · obtain ⟨d, hd⟩ := entity_mem_keys_iff.1 hkeys
            exact .referencedEntity h ha hm hd
  | entity s n =>
      cases s with
      | parameter => simp [dependencies] at hk
      | general =>
          cases hd : g.entity? .general n with
          | none => simp [dependencies, hd] at hk
          | some d =>
              rw [dependencies_entity hd] at hk
              rcases mem_entityDependencies_iff.1 hk
                with ⟨value, m, hdef, hm, rfl⟩ | ⟨id, m, hdef, rfl⟩
              · obtain ⟨d', hd'⟩ := entity_mem_keys_iff.1 hkeys
                exact .innerEntity h hd hdef hm hd'
              · obtain ⟨d', hd'⟩ := notationType_mem_keys_iff.1 hkeys
                exact .unparsedNotation h hd hdef hd'
  | «notationType» n => simp [dependencies] at hk

/-- What is needed is had from the roots by going along dependencies that are declared. -/
theorem Needs.along (hg : g.Inserted) {P : Key → Prop}
    (hroot : ∀ r ∈ roots, .element r ∈ g.keys → P (.element r))
    (hnext : ∀ j k, P j → k ∈ g.dependencies j → k ∈ g.keys → P k) (h : Needs g roots k) :
    P k := by
  induction h with
  | root hr hd => exact hroot _ hr (by simp [hd])
  | child _ hd hn hd' ih =>
      refine hnext _ _ ih ?_ (by simp [hd'])
      exact (mem_dependencies_element_iff hg).2 (.inl ⟨_, _, hd, hn, rfl⟩)
  | attributeOf _ ha ih =>
      refine hnext _ _ ih ?_ (by simp [ha])
      exact (mem_dependencies_element_iff hg).2 (.inr ⟨_, _, ha, rfl⟩)
  | listedNotation _ ha hkind hm hd ih =>
      refine hnext _ _ ih ?_ (by simp [hd])
      rw [dependencies_attributeOf ha]
      exact mem_attributeDependencies_iff.2 (.inl ⟨_, _, hkind, hm, rfl⟩)
  | namedEntity _ ha hkind hvalue hrun hd ih =>
      refine hnext _ _ ih ?_ (by simp [hd])
      rw [dependencies_attributeOf ha]
      exact mem_attributeDependencies_iff.2 (.inr (.inl ⟨_, _, hkind, hvalue, hrun, rfl⟩))
  | referencedEntity _ ha hm hd ih =>
      refine hnext _ _ ih ?_ (by simp [hd])
      rw [dependencies_attributeOf ha]
      exact mem_attributeDependencies_iff.2 (.inr (.inr ⟨_, hm, rfl⟩))
  | innerEntity _ hd hdef hm hd' ih =>
      refine hnext _ _ ih ?_ (by simp [hd'])
      rw [dependencies_entity hd]
      exact mem_entityDependencies_iff.2 (.inl ⟨_, _, hdef, hm, rfl⟩)
  | unparsedNotation _ hd hdef hd' ih =>
      refine hnext _ _ ih ?_ (by simp [hd'])
      rw [dependencies_entity hd]
      exact mem_entityDependencies_iff.2 (.inr ⟨_, _, hdef, rfl⟩)

end Doctype.Graph
