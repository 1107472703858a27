import Mathlib.Data.List.Basic
import Doctype.Proofs.Graph.Keyed

/-!
The positions that a graph keeps for the attributes of an element. However attributes are
inserted and replaced, these are the places of the element's attributes in the table
(`Inserted.positionsOf_eq`), so what is found through them are all attributes of the element,
in their order (`Inserted.attributesOf_eq`).
-/

namespace Doctype.Graph

variable {g : Graph}

theorem filterMap_findIdxs {α : Type} (p : α → Bool) (items : List α) :
    ((items.findIdxs p).filterMap fun i => items[i]?) = items.filter p := by
  have hplace : ∀ a ∈ items.zipIdx, items[a.2]? = some a.1 :=
    fun a ha => List.mem_zipIdx_iff_getElem?.1 ha
  calc
    _ = items.zipIdx.filterMap fun a => if p a.1 then some a.1 else none := by
      rw [List.findIdxs_eq_filterMap_zipIdx, List.filterMap_filterMap]
      refine List.filterMap_congr fun a ha => ?_
      cases p a.1 <;> simp [hplace a ha]
    _ = (items.zipIdx.map Prod.fst).filter p := by
      rw [List.filter_map, ← List.filterMap_eq_map, List.filterMap_filter]
      rfl
    _ = items.filter p := by rw [List.zipIdx_map_fst]

theorem positionsOf_insertAttribute (d : Attribute) (e : Text) :
    (g.insertAttribute d).2.positionsOf e =
      if attributeKey d ∈ g.attributes.map attributeKey then g.positionsOf e
      else if d.element = e then g.positionsOf e ++ [g.attributes.length]
        else g.positionsOf e := by
  have hnew : (g.attribute? d.element d.name).isNone = true ↔
      attributeKey d ∉ g.attributes.map attributeKey := by
    rw [Option.isNone_iff_eq_none]
    exact Table.find?_eq_none_iff
  unfold positionsOf insertAttribute
  by_cases h : attributeKey d ∈ g.attributes.map attributeKey
  · simp [h, mt hnew.1]
  · simp only [hnew.2 h, if_true, if_neg h, Table.addTo]
    rw [Table.find?_put fun _ _ => by rfl]
    split
    · cases Table.find? Prod.fst e g.positions <;> simp
    · rfl

/-- The positions that are kept for an element are the places of its attributes. -/
theorem Inserted.positionsOf_eq (h : g.Inserted) (e : Text) :
    g.positionsOf e = (g.attributes.map attributeKey).findIdxs fun k => k.1 = e := by
  induction h with
  | empty => rfl
  | insertAttribute d _ ih =>
      rw [positionsOf_insertAttribute, attributes_insertAttribute,
        Table.keys_put _ _ _ _ fun _ _ => by rfl, ih]
      split
      · rfl
      · rw [List.findIdxs_append, List.findIdxs_singleton]
        by_cases he : d.element = e <;> simp [attributeKey, he]
  | insertEntity d _ ih => rw [insertEntity_eq]; exact ih
  | _ => assumption

theorem Inserted.attributesOf_eq (h : g.Inserted) (e : Text) :
    g.attributesOf e = g.attributes.filter (·.element = e) := by
  rw [attributesOf, h.positionsOf_eq, List.findIdxs_map]
  exact filterMap_findIdxs _ g.attributes

end Doctype.Graph
