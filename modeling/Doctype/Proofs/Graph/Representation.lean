import Doctype.Proofs.Graph.Positions

/-!
What every graph is like that declarations were inserted into, in any order, and what one more
insertion does to it (`Graph.inserted_representation`). The tables, the keys and the positions
that are kept for elements tell the same declarations; an insertion tells whether its key was
new, and changes the table of its own kind only.
-/

namespace Doctype.Graph

variable {g : Graph}

/-- The parts of a graph say the same. -/
structure Consistent (g : Graph) : Prop where
  element_iff : ∀ n d, g.element? n = some d ↔ d ∈ g.elements ∧ d.name = n
  attribute_iff : ∀ e n a, g.attribute? e n = some a ↔ a ∈ g.attributes ∧
    a.element = e ∧ a.name = n
  entity_iff : ∀ s n d, g.entity? s n = some d ↔ d ∈ g.entities s ∧ d.name = n
  scope_eq : ∀ s, ∀ d ∈ g.entities s, d.scope = s
  notationType_iff : ∀ n d, g.notationType? n = some d ↔ d ∈ g.notations ∧ d.name = n
  attributesOf_eq : ∀ e, g.attributesOf e = g.attributes.filter (·.element = e)
  position_iff : ∀ e i, i ∈ g.positionsOf e ↔ ∃ a, g.attributes[i]? = some a ∧ a.element = e
  sorted_positions : ∀ e, (g.positionsOf e).Pairwise (· < ·)
  nodup_keys : g.keys.Nodup
  keys_eq : g.keys = g.elements.map (.element ·.name) ++
    g.attributes.map (fun a => .attributeOf a.element a.name) ++
      (g.entities .general).map (.entity .general ·.name) ++
        (g.entities .parameter).map (.entity .parameter ·.name) ++
          g.notations.map (.notationType ·.name)
  contains_iff : ∀ k, g.contains k = true ↔ k ∈ g.keys
  counts_eq : g.counts = [g.elements.length, g.attributes.length, (g.entities .general).length,
    (g.entities .parameter).length, g.notations.length, g.comments.length,
    g.instructions.length]
  length_keys : g.keys.length =
    g.elements.length + g.attributes.length + (g.entities .general).length +
    (g.entities .parameter).length + g.notations.length

theorem Inserted.position_iff (h : g.Inserted) (e : Text) (i : Nat) :
    i ∈ g.positionsOf e ↔ ∃ a, g.attributes[i]? = some a ∧ a.element = e := by
  rw [h.positionsOf_eq, List.mem_findIdxs_iff_exists_getElem_pos]
  simp [List.getElem?_eq_some_iff, attributeKey]

theorem Inserted.consistent (h : g.Inserted) : g.Consistent where
  element_iff _ _ := Table.find?_eq_some_iff h.keyed.elements
  attribute_iff e n a := by
    rw [attribute?, Table.find?_eq_some_iff h.keyed.attributes, attributeKey, Prod.mk.injEq]
  entity_iff s _ _ := Table.find?_eq_some_iff (h.keyed.entities s)
  scope_eq := h.keyed.scopes
  notationType_iff _ _ := Table.find?_eq_some_iff h.keyed.notations
  attributesOf_eq := h.attributesOf_eq
  position_iff := h.position_iff
  sorted_positions e := by
    rw [h.positionsOf_eq]
    exact List.pairwise_findIdxs
  nodup_keys := h.nodup_keys
  keys_eq := rfl
  contains_iff _ := mem_keys_iff.symm
  counts_eq := rfl
  length_keys := by simp [keys, entities, Nat.add_assoc]

/-! ### One more insertion -/

/-- What an insertion with the result `r` does to a table of a graph in which a later item with
the key `k` takes the place of the one before. -/
structure Replaces {α κ : Type} (g : Graph) (table : Graph → List α) (key : α → κ) (k : Key)
    (withOrder : α → α → α) (item : α) (r : Bool × Graph) : Prop where
  isNew : r.1 = true ↔ k ∉ g.keys
  puts : Table.Puts key withOrder item r.1 (table g) (table r.2)

theorem isNew_iff {k : Key} {isNew : Bool} (h : isNew = !g.contains k) :
    isNew = true ↔ k ∉ g.keys := by
  rw [h, mem_keys_iff, Bool.not_eq_true', Bool.not_eq_true]

theorem Inserted.insertElement_replaces (h : g.Inserted) (d : Element) :
    Replaces g Graph.elements Element.name (.element d.name)
      (fun old new => { new with order := old.order }) d (g.insertElement d) where
  isNew := isNew_iff (Option.not_isSome _).symm
  puts := Table.puts_put _ d h.keyed.elements

theorem Inserted.insertAttribute_replaces (h : g.Inserted) (d : Attribute) :
    Replaces g Graph.attributes attributeKey (.attributeOf d.element d.name)
      (fun old new => { new with order := old.order }) d (g.insertAttribute d) where
  isNew := isNew_iff (Option.not_isSome _).symm
  puts := Table.puts_put _ d h.keyed.attributes

theorem Inserted.insertNotation_replaces (h : g.Inserted) (d : NotationType) :
    Replaces g Graph.notations NotationType.name (.notationType d.name)
      (fun old new => { new with order := old.order }) d (g.insertNotation d) where
  isNew := isNew_iff (Option.not_isSome _).symm
  puts := Table.puts_put _ d h.keyed.notations

/-- An entity with a new name comes last among those of its scope; the first declaration of a
name stays. -/
theorem insertEntity_cases (g : Graph) (d : Entity) :
    (.entity d.scope d.name ∉ g.keys ∧ (g.insertEntity d).1 = true ∧
      (g.insertEntity d).2.entities d.scope = g.entities d.scope ++ [d]) ∨
    (.entity d.scope d.name ∈ g.keys ∧ (g.insertEntity d).1 = false ∧
      (g.insertEntity d).2 = g) := by
  have hresult : (g.insertEntity d).1 = !(g.entity? d.scope d.name).isSome :=
    (Option.not_isSome _).symm
  by_cases hmem : .entity d.scope d.name ∈ g.keys
  · -- neither scope has anything new, and nothing else of the graph depends on an entity
    have hfound : (g.entity? d.scope d.name).isSome = true := mem_keys_iff.1 hmem
    have hsame (s : Scope) : (g.insertEntity d).2.entities s = g.entities s := by
      rw [entities_insertEntity]
      split
      · next hs =>
        subst hs
        exact if_pos hfound
      · rfl
    have hgeneral : (g.insertEntity d).2.generalEntities = g.generalEntities := hsame .general
    have hparameter : (g.insertEntity d).2.parameterEntities = g.parameterEntities :=
      hsame .parameter
    refine .inr ⟨hmem, by rw [hresult, hfound]; rfl, ?_⟩
    rw [insertEntity_eq, hgeneral, hparameter]
  · have hnone : (g.entity? d.scope d.name).isSome = false := by
      have hcontains : ¬ g.contains (.entity d.scope d.name) = true := mt mem_keys_iff.2 hmem
      exact Bool.eq_false_iff.2 hcontains
    refine .inl ⟨hmem, by rw [hresult, hnone]; rfl, ?_⟩
    rw [entities_insertEntity, if_pos (by rfl), Table.putNew, if_neg]
    exact ne_true_of_eq_false hnone

/-- A graph that declarations were inserted into is consistent. One more insertion tells
whether the key of the declaration is new. A new declaration comes last; otherwise an element,
an attribute or a notation takes the place and the order of the one before, and an entity is
not taken. Nothing of another kind changes. -/
theorem inserted_representation (h : g.Inserted) :
    g.Consistent ∧
    (∀ d, Replaces g Graph.elements Element.name (.element d.name)
        (fun old new => { new with order := old.order }) d (g.insertElement d) ∧
      (g.insertElement d).2 = { g with elements := (g.insertElement d).2.elements }) ∧
    (∀ d, Replaces g Graph.attributes attributeKey (.attributeOf d.element d.name)
        (fun old new => { new with order := old.order }) d (g.insertAttribute d) ∧
      (g.insertAttribute d).2 = { g with
        attributes := (g.insertAttribute d).2.attributes
        positions := (g.insertAttribute d).2.positions }) ∧
    (∀ d, Replaces g Graph.notations NotationType.name (.notationType d.name)
        (fun old new => { new with order := old.order }) d (g.insertNotation d) ∧
      (g.insertNotation d).2 = { g with notations := (g.insertNotation d).2.notations }) ∧
    (∀ d, ((.entity d.scope d.name ∉ g.keys ∧ (g.insertEntity d).1 = true ∧
          (g.insertEntity d).2.entities d.scope = g.entities d.scope ++ [d]) ∨
        (.entity d.scope d.name ∈ g.keys ∧ (g.insertEntity d).1 = false ∧
          (g.insertEntity d).2 = g)) ∧
      (∀ s ≠ d.scope, (g.insertEntity d).2.entities s = g.entities s) ∧
      (g.insertEntity d).2 = { g with
        generalEntities := (g.insertEntity d).2.generalEntities
        parameterEntities := (g.insertEntity d).2.parameterEntities }) ∧
    (∀ c, g.pushComment c = { g with comments := g.comments ++ [c] }) ∧
    ∀ i, g.pushInstruction i = { g with instructions := g.instructions ++ [i] } := by
  refine ⟨h.consistent, fun d => ⟨h.insertElement_replaces d, rfl⟩,
    fun d => ⟨h.insertAttribute_replaces d, rfl⟩, fun d => ⟨h.insertNotation_replaces d, rfl⟩,
    fun d => ⟨insertEntity_cases g d, fun s hs => ?_, insertEntity_eq d⟩, fun _ => rfl,
    fun _ => rfl⟩
  rw [entities_insertEntity, if_neg (Ne.symm hs)]

/-- The theorem applies where the attributes of two elements interleave and the first one is
redeclared. -/
theorem inserted_representation_interleaved :
    let g :=
      (((Graph.empty.insertAttribute ⟨['a'], ['x'], .id, .implied, [], 1⟩).2.insertAttribute
        ⟨['b'], ['x'], .id, .implied, [], 2⟩).2.insertAttribute
        ⟨['a'], ['y'], .id, .implied, [], 3⟩).2
    let again : Attribute := ⟨['a'], ['x'], .id, .required, [], 4⟩
    g.Inserted ∧ g.Consistent ∧ g.positionsOf ['a'] = [0, 2] ∧
      Replaces g Graph.attributes attributeKey (.attributeOf ['a'] ['x'])
        (fun old new => { new with order := old.order }) again (g.insertAttribute again) ∧
      (g.insertAttribute again).1 = false ∧
      (g.insertAttribute again).2.attributesOf ['a'] =
        [{ again with order := 1 }, ⟨['a'], ['y'], .id, .implied, [], 3⟩] := by
  intro g again
  have hinserted : g.Inserted :=
    .insertAttribute _ (.insertAttribute _ (.insertAttribute _ .empty))
  obtain ⟨hconsistent, -, hattribute, -⟩ := inserted_representation hinserted
  exact ⟨hinserted, hconsistent, rfl, (hattribute again).1, rfl, rfl⟩

end Doctype.Graph
