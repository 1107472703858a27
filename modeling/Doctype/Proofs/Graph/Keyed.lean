import Doctype.Graph
import Doctype.Proofs.Graph.Table

/-!
What holds of every graph that insertions lead to: each declaration has a key of its own
(`Inserted.nodup_keys`) and every entity stands in the table of its scope. What is found in a
graph after an insertion is told by one lemma for each kind of declaration.
-/

namespace Doctype.Graph

variable {g : Graph}

/-- The graphs that insertions lead to, in any order, from the one without declarations. -/
inductive Inserted : Graph → Prop
  | empty : Inserted .empty
  | insertElement {g : Graph} (d : Element) : Inserted g → Inserted (g.insertElement d).2
  | insertAttribute {g : Graph} (d : Attribute) : Inserted g → Inserted (g.insertAttribute d).2
  | insertEntity {g : Graph} (d : Entity) : Inserted g → Inserted (g.insertEntity d).2
  | insertNotation {g : Graph} (d : NotationType) :
      Inserted g → Inserted (g.insertNotation d).2
  | pushComment {g : Graph} (c : Comment) : Inserted g → Inserted (g.pushComment c)
  | pushInstruction {g : Graph} (i : Instruction) : Inserted g → Inserted (g.pushInstruction i)

/-! ### What an insertion changes -/

theorem elements_insertElement (d : Element) : (g.insertElement d).2.elements =
    Table.put Element.name (fun old new => { new with order := old.order }) d g.elements := rfl

theorem attributes_insertAttribute (d : Attribute) : (g.insertAttribute d).2.attributes =
    Table.put attributeKey (fun old new => { new with order := old.order }) d g.attributes :=
  rfl

theorem notations_insertNotation (d : NotationType) : (g.insertNotation d).2.notations =
    Table.put NotationType.name (fun old new => { new with order := old.order }) d
      g.notations := rfl

theorem element?_insertElement (d : Element) (n : Text) :
    (g.insertElement d).2.element? n =
      if d.name = n then
        some ((g.element? n).elim d fun old => { d with order := old.order })
      else g.element? n := by
  rw [element?, elements_insertElement]
  exact Table.find?_put (fun _ _ => by rfl) d n

theorem attribute?_insertAttribute (d : Attribute) (e n : Text) :
    (g.insertAttribute d).2.attribute? e n =
      if attributeKey d = (e, n) then
        some ((g.attribute? e n).elim d fun old => { d with order := old.order })
      else g.attribute? e n := by
  rw [attribute?, attributes_insertAttribute]
  exact Table.find?_put (fun _ _ => by rfl) d (e, n)

theorem notationType?_insertNotation (d : NotationType) (n : Text) :
    (g.insertNotation d).2.notationType? n =
      if d.name = n then
        some ((g.notationType? n).elim d fun old => { d with order := old.order })
      else g.notationType? n := by
  rw [notationType?, notations_insertNotation]
  exact Table.find?_put (fun _ _ => by rfl) d n

theorem entities_insertEntity (d : Entity) (s : Scope) :
    (g.insertEntity d).2.entities s =
      if d.scope = s then Table.putNew Entity.name d (g.entities s) else g.entities s := by
  unfold insertEntity
  cases hd : d.scope <;> cases s <;> simp [entities]

theorem insertEntity_eq (d : Entity) : (g.insertEntity d).2 =
    { g with
      generalEntities := (g.insertEntity d).2.generalEntities
      parameterEntities := (g.insertEntity d).2.parameterEntities } := by
  unfold insertEntity
  cases d.scope <;> rfl

theorem entity?_insertEntity (d : Entity) (s : Scope) (n : Text) :
    (g.insertEntity d).2.entity? s n =
      if d.scope = s ∧ d.name = n then some ((g.entity? s n).getD d) else g.entity? s n := by
  unfold entity?
  rw [entities_insertEntity]
  by_cases hs : d.scope = s
  · simp [hs, Table.find?_putNew]
  · simp [hs]

/-! ### Keys -/

/-- No two declarations of a kind have the same key, and the tables of entities go by scope. -/
structure Keyed (g : Graph) : Prop where
  elements : (g.elements.map Element.name).Nodup
  attributes : (g.attributes.map attributeKey).Nodup
  entities : ∀ s, ((g.entities s).map Entity.name).Nodup
  scopes : ∀ s, ∀ d ∈ g.entities s, d.scope = s
  notations : (g.notations.map NotationType.name).Nodup

theorem Keyed.insertEntity (h : Keyed g) (d : Entity) : Keyed (g.insertEntity d).2 where
  elements := by rw [insertEntity_eq]; exact h.elements
  attributes := by rw [insertEntity_eq]; exact h.attributes
  entities s := by
    rw [entities_insertEntity]
    split
    · exact Table.nodup_putNew (h.entities s)
    · exact h.entities s
  scopes s e he := by
    rw [entities_insertEntity] at he
    split at he
    · next hs =>
      rcases Table.mem_putNew he with rfl | he
      · exact hs
      · exact h.scopes s e he
    · exact h.scopes s e he
  notations := by rw [insertEntity_eq]; exact h.notations

theorem Keyed.empty : Keyed .empty where
  elements := List.nodup_nil
  attributes := List.nodup_nil
  entities s := by cases s <;> exact List.nodup_nil
  scopes s d hd := by cases s <;> cases hd
  notations := List.nodup_nil

/-- Insertions keep keys apart. -/
theorem Inserted.keyed (h : Inserted g) : Keyed g := by
  induction h with
  | empty => exact .empty
  | insertElement d _ ih =>
      refine { ih with elements := ?_ }
      rw [elements_insertElement]
      exact Table.nodup_put (fun _ _ => by rfl) ih.elements
  | insertAttribute d _ ih =>
      refine { ih with attributes := ?_ }
      rw [attributes_insertAttribute]
      exact Table.nodup_put (fun _ _ => by rfl) ih.attributes
  | insertEntity d _ ih => exact ih.insertEntity d
  | insertNotation d _ ih =>
      refine { ih with notations := ?_ }
      rw [notations_insertNotation]
      exact Table.nodup_put (fun _ _ => by rfl) ih.notations
  | pushComment c _ ih => exact { ih with }
  | pushInstruction i _ ih => exact { ih with }

theorem mem_keys_iff {k : Key} : k ∈ g.keys ↔ g.contains k = true := by
  cases k with
  | element n => simp [keys, contains, element?, Table.find?_isSome_iff]
  | attributeOf e n => simp [keys, contains, attribute?, Table.find?_isSome_iff, attributeKey]
  | entity s n => cases s <;> simp [keys, contains, entity?, entities, Table.find?_isSome_iff]
  | notationType n => simp [keys, contains, notationType?, Table.find?_isSome_iff]

theorem nodup_map_key {α β : Type} {f : α → β} {c : β → Key} {items : List α}
    (hc : Function.Injective c) (h : (items.map f).Nodup) :
    (items.map fun a => c (f a)).Nodup := by
  simpa [Function.comp_def] using h.map hc

/-- No key stands twice among the keys of a graph. -/
theorem Keyed.nodup_keys (h : Keyed g) : g.keys.Nodup := by
  have hattributes : (g.attributes.map fun a => Key.attributeOf a.element a.name).Nodup :=
    nodup_map_key (c := fun p => .attributeOf p.1 p.2) (by rintro ⟨⟩ ⟨⟩; simp) h.attributes
  unfold keys
  simp only [List.nodup_append', List.disjoint_left]
  refine ⟨⟨⟨⟨nodup_map_key (fun _ _ => by simp) h.elements, hattributes, ?_⟩,
    nodup_map_key (fun _ _ => by simp) (h.entities .general), ?_⟩,
    nodup_map_key (fun _ _ => by simp) (h.entities .parameter), ?_⟩,
    nodup_map_key (fun _ _ => by simp) h.notations, ?_⟩
  all_goals
    intro k
    rcases k with _ | _ | ⟨_ | _, _⟩ | _ <;> simp

theorem Inserted.nodup_keys (h : Inserted g) : g.keys.Nodup :=
  h.keyed.nodup_keys

end Doctype.Graph
