import Mathlib.Data.List.Nodup
import Doctype.Table

/-!
Look-up in tables: what each way of adding an item does to the item that is found under a key
(`find?_put`, `find?_putNew`), and that keys stay apart (`nodup_put`, `nodup_putNew`). Where
they do, an item is found under its own key (`find?_eq_some_iff`), and one that is put goes to
the end or to the place of the only one with its key (`puts_put`). Adding commutes with changes
of the items that leave their keys alone (`map_put`, `map_putNew`). Values that are added to
groups stand in theirs (`addTo_map`).
-/

namespace Doctype.Table

variable {α κ : Type} [DecidableEq κ] {key : α → κ} {keep : α → α → α} {items : List α}

theorem find?_isSome_iff {k : κ} : (find? key k items).isSome = true ↔ k ∈ items.map key :=
  isSome_find?_iff key k items

theorem find?_eq_none_iff {k : κ} : find? key k items = none ↔ k ∉ items.map key := by
  rw [← find?_isSome_iff, Bool.not_eq_true, Option.isSome_eq_false_iff,
    Option.isNone_iff_eq_none]

theorem mem_of_find?_eq_some {k : κ} {a : α} (h : find? key k items = some a) :
    a ∈ items ∧ key a = k :=
  ⟨List.mem_of_find?_eq_some h, by simpa using List.find?_some h⟩

@[simp] theorem find?_nil {k : κ} : find? key k ([] : List α) = none := rfl

theorem find?_cons {k : κ} {a : α} :
    find? key k (a :: items) = if key a = k then some a else find? key k items := by
  by_cases h : key a = k <;> simp [find?, h]

theorem find?_append_singleton {k : κ} {a : α} :
    find? key k (items ++ [a]) =
      (find? key k items).or (if key a = k then some a else none) := by
  simp only [find?, List.find?_append, List.find?_singleton, decide_eq_true_eq]

theorem find?_map_keep (hkeep : ∀ a b, key (keep a b) = key b) (item : α) (k : κ) :
    find? key k (items.map fun a => if key a = key item then keep a item else a) =
      if key item = k then (find? key k items).map fun old => keep old item
      else find? key k items := by
  induction items with
  | nil => simp
  | cons a items ih =>
      rw [List.map_cons, find?_cons, find?_cons, ih]
      -- an item with the key of the one that is put has the same key behind it
      by_cases ha : key a = key item
      · by_cases hk : key item = k <;> simp [ha, hk, hkeep]
      · by_cases hk : key item = k
        · simp [hk, hk ▸ ha]
        · simp [ha, hk]

/-- What is found after an item was put: under its key what is kept of it, elsewhere what was
there. -/
theorem find?_put (hkeep : ∀ a b, key (keep a b) = key b) (item : α) (k : κ) :
    find? key k (put key keep item items) =
      if key item = k then some ((find? key k items).elim item fun old => keep old item)
      else find? key k items := by
  unfold put
  split
  · next hsome =>
    rw [find?_map_keep hkeep]
    by_cases hk : key item = k
    · obtain ⟨old, hold⟩ := Option.isSome_iff_exists.1 hsome
      simp [← hk, hold]
    · simp [hk]
  · next hnone =>
    rw [find?_append_singleton]
    by_cases hk : key item = k
    · have : find? key k items = none := by simpa [hk] using hnone
      simp [hk, this]
    · simp [hk]

/-- What is found after an item was added that replaces no other: itself only where nothing
was. -/
theorem find?_putNew (item : α) (k : κ) :
    find? key k (putNew key item items) =
      if key item = k then some ((find? key k items).getD item) else find? key k items := by
  unfold putNew
  split
  · next hsome =>
    by_cases hk : key item = k
    · obtain ⟨old, hold⟩ := Option.isSome_iff_exists.1 hsome
      simp [← hk, hold]
    · simp [hk]
  · next hnone =>
    rw [find?_append_singleton]
    by_cases hk : key item = k
    · have : find? key k items = none := by simpa [hk] using hnone
      simp [hk, this]
    · simp [hk]

theorem mem_putNew {item a : α} (h : a ∈ putNew key item items) : a = item ∨ a ∈ items := by
  unfold putNew at h
  split at h
  · exact .inr h
  · exact (List.mem_append.1 h).symm.imp_left List.mem_singleton.1

theorem nodup_put (hkeep : ∀ a b, key (keep a b) = key b) {item : α}
    (h : (items.map key).Nodup) : ((put key keep item items).map key).Nodup := by
  rw [keys_put key keep item items fun a _ => hkeep a item]
  split
  · exact h
  · next hnew => exact List.nodup_append'.2 ⟨h, by simp, by simpa using hnew⟩

theorem nodup_putNew {item : α} (h : (items.map key).Nodup) :
    ((putNew key item items).map key).Nodup := by
  rw [keys_putNew]
  split
  · exact h
  · next hnew => exact List.nodup_append'.2 ⟨h, by simp, by simpa using hnew⟩

/-! ### Tables whose keys are apart -/

/-- With keys apart, what is found under a key is the item that has it. -/
theorem find?_eq_some_iff (h : (items.map key).Nodup) {k : κ} {a : α} :
    find? key k items = some a ↔ a ∈ items ∧ key a = k := by
  refine ⟨mem_of_find?_eq_some, ?_⟩
  rintro ⟨ha, rfl⟩
  have hmap : key a ∈ items.map key := List.mem_map_of_mem ha
  obtain ⟨b, hb⟩ := Option.isSome_iff_exists.1 (find?_isSome_iff.2 hmap)
  obtain ⟨hmem, hkey⟩ := mem_of_find?_eq_some hb
  rw [hb, List.inj_on_of_nodup_map h hmem ha hkey]

/-- `Puts key keep item isNew items items'`: putting `item` into the table `items` gives
`items'`. An item with a new key comes last; otherwise `keep old item` stands in the place of
the item `old` with its key. -/
inductive Puts {α κ : Type} (key : α → κ) (keep : α → α → α) (item : α) :
    Bool → List α → List α → Prop
  | new {items : List α} :
      key item ∉ items.map key → Puts key keep item true items (items ++ [item])
  | old {before after : List α} {old : α} : key old = key item →
      Puts key keep item false (before ++ old :: after) (before ++ keep old item :: after)

theorem puts_put (keep : α → α → α) (item : α) (h : (items.map key).Nodup) :
    Puts key keep item (find? key (key item) items).isNone items
      (put key keep item items) := by
  unfold put
  cases hfound : find? key (key item) items with
  | none => exact Puts.new (find?_eq_none_iff.1 hfound)
  | some old =>
      obtain ⟨hmem, hkey⟩ := mem_of_find?_eq_some hfound
      obtain ⟨before, after, rfl⟩ := List.append_of_mem hmem
      -- no item before or behind has the key, so only one is changed
      have hother : ∀ a ∈ before ++ after, key a ≠ key item := by
        rw [List.map_append, List.map_cons, List.nodup_middle, ← List.map_append,
          List.nodup_cons] at h
        intro a ha heq
        exact h.1 (List.mem_map.2 ⟨a, ha, heq.trans hkey.symm⟩)
      have hkept {l : List α} (hl : ∀ a ∈ l, key a ≠ key item) :
          (l.map fun a => if key a = key item then keep a item else a) = l :=
        (List.map_congr_left fun a ha => if_neg (hl a ha)).trans (List.map_id' l)
      rw [if_pos (by rfl), List.map_append, List.map_cons, if_pos hkey,
        hkept fun a ha => hother a (List.mem_append_left _ ha),
        hkept fun a ha => hother a (List.mem_append_right _ ha)]
      exact Puts.old hkey

/-! ### Items that change, but not in their keys -/

variable {f : α → α}

theorem find?_map (hkey : ∀ a, key (f a) = key a) (k : κ) (items : List α) :
    find? key k (items.map f) = (find? key k items).map f := by
  simp only [find?, List.find?_map, Function.comp_def, hkey]

theorem map_put (hkey : ∀ a, key (f a) = key a)
    (hkeep : ∀ a b, f (keep a b) = keep (f a) (f b)) (item : α) (items : List α) :
    (put key keep item items).map f = put key keep (f item) (items.map f) := by
  unfold put
  rw [find?_map hkey, hkey, Option.isSome_map]
  split
  · simp only [List.map_map]
    refine List.map_congr_left fun a _ => ?_
    by_cases ha : key a = key item <;> simp [hkey, ha, hkeep]
  · simp

theorem map_putNew (hkey : ∀ a, key (f a) = key a) (item : α) (items : List α) :
    (putNew key item items).map f = putNew key (f item) (items.map f) := by
  unfold putNew
  rw [find?_map hkey, hkey, Option.isSome_map]
  split <;> simp

/-! ### Groups -/

/-- Adding a value to a group leaves the others alone; without a group the key had no
values. -/
theorem addTo_map {β : Type} {values : κ → List β} {keys : List κ} {k : κ} {b : β}
    (hnew : k ∉ keys → values k = []) :
    addTo k b (keys.map fun j => (j, values j)) =
      (if k ∈ keys then keys else keys ++ [k]).map fun j =>
        (j, values j ++ if j = k then [b] else []) := by
  have hkeys : (find? Prod.fst k (keys.map fun j => (j, values j))).isSome =
      true ↔ k ∈ keys := by
    simp [find?_isSome_iff]
  unfold addTo put
  by_cases hk : k ∈ keys
  · rw [if_pos (hkeys.2 hk), if_pos hk, List.map_map]
    refine List.map_congr_left fun j _ => ?_
    by_cases hj : j = k <;> simp [hj]
  · rw [if_neg (mt hkeys.1 hk), if_neg hk, List.map_append]
    refine congrArg₂ _ (List.map_congr_left fun j hj => ?_) (by simp [hnew hk])
    have hne : j ≠ k := fun heq => hk (heq ▸ hj)
    simp [hne]

end Doctype.Table
