/-!
Lists in which every item has a key of its own: look-up, and the two ways to add an item. A
list of items keeps the order in which their keys were first added (`keys_put`, `keys_putNew`).
-/

namespace Doctype.Table

variable {α κ : Type} [DecidableEq κ]

def find? (key : α → κ) (k : κ) (items : List α) : Option α :=
  items.find? fun a => key a = k

/-- Adds an item at the end, or puts it in the place of the one that has its key; `keep old
new` is what then stands there. -/
def put (key : α → κ) (keep : α → α → α) (item : α) (items : List α) : List α :=
  if (find? key (key item) items).isSome then
    items.map fun a => if key a = key item then keep a item else a
  else items ++ [item]

def putNew (key : α → κ) (item : α) (items : List α) : List α :=
  if (find? key (key item) items).isSome then items else items ++ [item]

/-- Adds a value to the group of a key, which is a new group at the end if the key has none. -/
def addTo {β : Type} (k : κ) (b : β) (groups : List (κ × List β)) : List (κ × List β) :=
  put Prod.fst (fun old new => (new.1, old.2 ++ new.2)) (k, [b]) groups

theorem isSome_find?_iff (key : α → κ) (k : κ) (items : List α) :
    (find? key k items).isSome = true ↔ k ∈ items.map key := by
  simp [find?]

/-- Putting an item adds its key at the end if it is new, and otherwise changes no key. -/
theorem keys_put (key : α → κ) (keep : α → α → α) (item : α) (items : List α)
    (hkeep : ∀ a, key a = key item → key (keep a item) = key item) :
    (put key keep item items).map key =
      if key item ∈ items.map key then items.map key else items.map key ++ [key item] := by
  unfold put
  by_cases h : key item ∈ items.map key
  · rw [if_pos ((isSome_find?_iff _ _ _).2 h), if_pos h, List.map_map]
    refine List.map_congr_left fun a _ => ?_
    by_cases ha : key a = key item <;> simp [ha, hkeep]
  · rw [if_neg (fun hs => h ((isSome_find?_iff _ _ _).1 hs)), if_neg h]
    simp

/-- Adding an item that may not replace another one has the same effect on the keys. -/
theorem keys_putNew (key : α → κ) (item : α) (items : List α) :
    (putNew key item items).map key =
      if key item ∈ items.map key then items.map key else items.map key ++ [key item] := by
  unfold putNew
  by_cases h : key item ∈ items.map key
  · rw [if_pos ((isSome_find?_iff _ _ _).2 h), if_pos h]
  · rw [if_neg (fun hs => h ((isSome_find?_iff _ _ _).1 hs)), if_neg h]
    simp

end Doctype.Table
