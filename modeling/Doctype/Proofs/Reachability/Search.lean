import Mathlib.Data.List.Nodup
import Doctype.Proofs.Reachability.Needs

/-!
The two worklists of the analysis. `Searching` is what holds of the declarations that were
reached and of the keys that are pending, be it an element in the queue or an entity on the
stack; a step keeps it if it loses nothing and takes up only what something needed depends on
(`Searching.step`). The walk over the elements keeps it, and so does following the entities
behind it; each runs until its worklist is empty (`Walking.walk`, `Closing.closeEntities`), and
by then exactly what is needed was reached (`Searching.mem_iff`).
-/

namespace Doctype

/-! ### Reachable sets -/

namespace ReachableSet

variable {s : ReachableSet} {j k : Key}

@[simp] theorem roots_insert : (s.insert k).2.roots = s.roots := by
  unfold insert
  split <;> rfl

@[simp] theorem mem_keys_insert_iff : j ∈ (s.insert k).2.keys ↔ j ∈ s.keys ∨ j = k := by
  unfold insert
  split
  · next h =>
      have hk : k ∈ s.keys := List.contains_iff_mem.1 h
      exact (or_iff_left_of_imp fun heq => heq ▸ hk).symm
  · simp

theorem nodup_insert (h : s.keys.Nodup) : (s.insert k).2.keys.Nodup := by
  unfold insert
  split
  · exact h
  · next hk =>
      have hnew : k ∉ s.keys := fun hmem => hk (List.contains_iff_mem.2 hmem)
      simpa using h.concat hnew

/-- `s.Of g roots`: a set that was asked for by the roots, with declarations of the graph, each
once. -/
structure Of (g : Graph) (roots : List Text) (s : ReachableSet) : Prop where
  roots_eq : s.roots = roots
  nodup : s.keys.Nodup
  declared : ∀ k ∈ s.keys, k ∈ g.keys

variable {g : Graph} {roots : List Text}

theorem Of.new : (ReachableSet.new roots).Of g roots :=
  ⟨rfl, List.nodup_nil, by simp [ReachableSet.new]⟩

theorem Of.insert (h : s.Of g roots) (hk : k ∈ g.keys) : (s.insert k).2.Of g roots where
  roots_eq := roots_insert.trans h.roots_eq
  nodup := nodup_insert h.nodup
  declared j hj := by
    rcases mem_keys_insert_iff.1 hj with hj | rfl
    · exact h.declared j hj
    · exact hk

end ReachableSet

namespace Graph

variable {g : Graph} {roots names : List Text} {s : ReachableSet} {j k : Key} {n : Text}

/-! ### Notations -/

theorem mem_insertNotationType_iff :
    k ∈ (g.insertNotationType s n).keys ↔ k ∈ s.keys ∨ k = .notationType n ∧ k ∈ g.keys := by
  have hdeclared : (g.notationType? n).isSome = true ↔ Key.notationType n ∈ g.keys := by
    simp [Option.isSome_iff_exists]
  unfold insertNotationType
  split
  · next h =>
      rw [ReachableSet.mem_keys_insert_iff]
      exact or_congr_right ⟨fun heq => ⟨heq, heq ▸ hdeclared.1 h⟩, And.left⟩
  · next h =>
      exact (or_iff_left fun ⟨heq, hk⟩ => h (hdeclared.2 (heq ▸ hk))).symm

theorem of_insertNotationType (h : s.Of g roots) : (g.insertNotationType s n).Of g roots := by
  unfold insertNotationType
  split
  · next hn => exact h.insert (notationType_mem_keys_iff.2 (Option.isSome_iff_exists.1 hn))
  · exact h

theorem mem_insertNotationTypes_iff : k ∈ (names.foldl g.insertNotationType s).keys ↔
    k ∈ s.keys ∨ (∃ n ∈ names, k = .notationType n) ∧ k ∈ g.keys := by
  induction names generalizing s with
  | nil => simp
  | cons n names ih =>
      rw [List.foldl_cons, ih, mem_insertNotationType_iff, or_assoc, ← or_and_right]
      simp

theorem of_insertNotationTypes (h : s.Of g roots) :
    (names.foldl g.insertNotationType s).Of g roots := by
  induction names generalizing s with
  | nil => exact h
  | cons n names ih => exact ih (of_insertNotationType h)

/-! ### Attributes -/

def Gathered.found (w : Gathered) : List Key :=
  w.set.keys ++ w.entities.map (.entity .general)

variable {w : Gathered} {a : Attribute} {as : List Attribute}

theorem set_gatherAttribute : (g.gatherAttribute w a).set =
    (listedNotations a).foldl g.insertNotationType
      (w.set.insert (.attributeOf a.element a.name)).2 := by
  unfold gatherAttribute listedNotations
  cases a.kind <;> rfl

theorem entities_gatherAttribute :
    (g.gatherAttribute w a).entities = (followedEntities a).reverse ++ w.entities := by
  have hnil : Text.words [] = [] := rfl
  unfold gatherAttribute followedEntities
  cases a.default.value? <;> simp [hnil]

theorem mem_keys_gatherAttribute_iff : k ∈ (g.gatherAttribute w a).set.keys ↔
    (k ∈ w.set.keys ∨ k = .attributeOf a.element a.name) ∨
      k ∈ (listedNotations a).map .notationType ∧ k ∈ g.keys := by
  rw [set_gatherAttribute, mem_insertNotationTypes_iff, ReachableSet.mem_keys_insert_iff]
  simp [@eq_comm Key k]

theorem mem_found_gatherAttribute_iff (hk : k ∈ g.keys) : k ∈ (g.gatherAttribute w a).found ↔
    k ∈ w.found ∨ k = .attributeOf a.element a.name ∨ k ∈ attributeDependencies a := by
  unfold Gathered.found
  rw [List.mem_append, mem_keys_gatherAttribute_iff, entities_gatherAttribute,
    attributeDependencies]
  simp only [List.map_append, List.map_reverse, List.mem_append, List.mem_reverse,
    hk, and_true]
  tauto

theorem of_gatherAttribute (h : w.set.Of g roots)
    (ha : .attributeOf a.element a.name ∈ g.keys) :
    (g.gatherAttribute w a).set.Of g roots := by
  rw [set_gatherAttribute]
  exact of_insertNotationTypes (h.insert ha)

theorem mem_keys_gatherAttributes (h : k ∈ (as.foldl g.gatherAttribute w).set.keys) :
    k ∈ w.set.keys ∨ (∃ a ∈ as, k = .attributeOf a.element a.name) ∨
      ∃ n, k = .notationType n := by
  induction as generalizing w with
  | nil => exact .inl h
  | cons a as ih =>
      rcases ih h with h | ⟨b, hb, rfl⟩ | h
      · rcases mem_keys_gatherAttribute_iff.1 h with (h | rfl) | ⟨h, -⟩
        · exact .inl h
        · exact .inr (.inl ⟨a, by simp, rfl⟩)
        · obtain ⟨n, -, rfl⟩ := List.mem_map.1 h
          exact .inr (.inr ⟨n, rfl⟩)
      · exact .inr (.inl ⟨b, by simp [hb], rfl⟩)
      · exact .inr (.inr h)

theorem keys_subset_gatherAttributes :
    w.set.keys ⊆ (as.foldl g.gatherAttribute w).set.keys := by
  induction as generalizing w with
  | nil => exact List.Subset.refl _
  | cons a as ih => exact fun k hk => ih (mem_keys_gatherAttribute_iff.2 (.inl (.inl hk)))

theorem mem_found_gatherAttributes_iff (hk : k ∈ g.keys) :
    k ∈ (as.foldl g.gatherAttribute w).found ↔ k ∈ w.found ∨
      ∃ a ∈ as, k = .attributeOf a.element a.name ∨ k ∈ attributeDependencies a := by
  induction as generalizing w with
  | nil => simp
  | cons a as ih =>
      rw [List.foldl_cons, ih, mem_found_gatherAttribute_iff hk, or_assoc]
      simp

theorem of_gatherAttributes (h : w.set.Of g roots)
    (has : ∀ a ∈ as, .attributeOf a.element a.name ∈ g.keys) :
    (as.foldl g.gatherAttribute w).set.Of g roots := by
  induction as generalizing w with
  | nil => exact h
  | cons a as ih =>
      exact ih (of_gatherAttribute h (has a (by simp))) fun b hb => has b (by simp [hb])

/-! ### Elements -/

theorem keys_subset_gatherElement : w.set.keys ⊆ (g.gatherElement w n).set.keys := fun _ hk =>
  keys_subset_gatherAttributes (ReachableSet.mem_keys_insert_iff.2 (.inl hk))

theorem element_mem_keys_gatherElement : .element n ∈ (g.gatherElement w n).set.keys :=
  keys_subset_gatherAttributes (ReachableSet.mem_keys_insert_iff.2 (.inr rfl))

theorem mem_keys_gatherElement (h : k ∈ (g.gatherElement w n).set.keys) :
    k ∈ w.set.keys ∨ k = .element n ∨
      (∃ a ∈ g.attributesOf n, k = .attributeOf a.element a.name) ∨
        ∃ m, k = .notationType m := by
  rw [← or_assoc, ← ReachableSet.mem_keys_insert_iff]
  exact mem_keys_gatherAttributes h

theorem mem_found_gatherElement_iff (hk : k ∈ g.keys) :
    k ∈ (g.gatherElement w n).found ↔ (k ∈ w.found ∨ k = .element n) ∨
      ∃ a ∈ g.attributesOf n, k = .attributeOf a.element a.name ∨
        k ∈ attributeDependencies a := by
  rw [gatherElement, mem_found_gatherAttributes_iff hk]
  refine or_congr_left ?_
  simp only [Gathered.found, List.mem_append, ReachableSet.mem_keys_insert_iff, or_right_comm]

theorem of_gatherElement (hg : g.Inserted) (h : w.set.Of g roots) (hn : .element n ∈ g.keys) :
    (g.gatherElement w n).set.Of g roots := by
  refine of_gatherAttributes (h.insert hn) fun a ha => ?_
  obtain ⟨rfl, hfind⟩ := hg.attribute?_of_mem_attributesOf ha
  exact attributeOf_mem_keys_iff.2 ⟨a, hfind⟩

variable {q : Queue} {children : List Text} {c : Text}

/-- A child that is not declared or that waited before changes nothing. -/
theorem pushChild_eq : g.pushChild q c =
    if .element c ∈ g.keys ∧ c ∉ q.visited then ⟨q.waiting ++ [c], c :: q.visited⟩ else q := by
  unfold pushChild
  cases hc : g.element? c with
  | none =>
      have hundeclared : Key.element c ∉ g.keys := by simp [hc]
      exact (if_neg fun h => hundeclared h.1).symm
  | some d =>
      have hname : d.name = c := (Table.mem_of_find?_eq_some hc).2
      have hdeclared : Key.element c ∈ g.keys := element_mem_keys_iff.2 ⟨d, hc⟩
      simp [Queue.push, hname, hdeclared]

theorem mem_visited_pushChild_iff :
    n ∈ (g.pushChild q c).visited ↔ n ∈ q.visited ∨ n = c ∧ .element n ∈ g.keys := by
  rw [pushChild_eq]
  split
  · next h =>
      rw [List.mem_cons, or_comm]
      exact or_congr_right ⟨fun heq => ⟨heq, heq ▸ h.1⟩, And.left⟩
  · next h =>
      refine (or_iff_left_of_imp ?_).symm
      rintro ⟨rfl, hkey⟩
      exact by_contra fun hnew => h ⟨hkey, hnew⟩

theorem mem_waiting_pushChild_iff : n ∈ (g.pushChild q c).waiting ↔
    n ∈ q.waiting ∨ n = c ∧ .element n ∈ g.keys ∧ n ∉ q.visited := by
  rw [pushChild_eq]
  split
  · next h =>
      rw [List.mem_append, List.mem_singleton]
      exact or_congr_right ⟨fun heq => ⟨heq, heq ▸ h⟩, And.left⟩
  · next h =>
      refine (or_iff_left ?_).symm
      rintro ⟨rfl, hnew⟩
      exact h hnew

theorem mem_visited_pushChildren_iff : n ∈ (children.foldl g.pushChild q).visited ↔
    n ∈ q.visited ∨ n ∈ children ∧ .element n ∈ g.keys := by
  induction children generalizing q with
  | nil => simp
  | cons c children ih =>
      rw [List.foldl_cons, ih, mem_visited_pushChild_iff, or_assoc, ← or_and_right,
        List.mem_cons]

theorem mem_waiting_pushChildren_iff : n ∈ (children.foldl g.pushChild q).waiting ↔
    n ∈ q.waiting ∨ n ∈ children ∧ .element n ∈ g.keys ∧ n ∉ q.visited := by
  induction children generalizing q with
  | nil => simp
  | cons c children ih =>
      rw [List.foldl_cons, ih, mem_waiting_pushChild_iff, mem_visited_pushChild_iff,
        List.mem_cons]
      tauto

/-! ### The invariant -/

/-- What holds of the declarations that were reached and of the keys that are pending. -/
structure Searching (g : Graph) (roots : List Text) (s : ReachableSet) (pending : List Key) :
    Prop where
  reached : s.Of g roots
  /-- Only what is needed was found, apart from names that are not declared. -/
  sound : ∀ k ∈ s.keys ++ pending, k ∈ g.keys → Needs g roots k
  /-- No root was lost. -/
  root_found : ∀ r ∈ roots, .element r ∈ g.keys → .element r ∈ s.keys ++ pending
  /-- Nothing that a reached declaration depends on was lost. -/
  next_found : ∀ j ∈ s.keys, ∀ k ∈ g.dependencies j, k ∈ g.keys → k ∈ s.keys ++ pending

namespace Searching

variable {s' : ReachableSet} {pending pending' : List Key}

/-- A step that loses nothing, that finds only what something needed depends on, and that finds
all that the declarations which it reaches depend on. -/
theorem step (hg : g.Inserted) (h : Searching g roots s pending) (hreached : s'.Of g roots)
    (hkept : ∀ k ∈ s.keys ++ pending, k ∈ g.keys → k ∈ s'.keys ++ pending')
    (hfound : ∀ k ∈ s'.keys ++ pending', k ∈ g.keys →
      k ∈ s.keys ++ pending ∨ ∃ j, Needs g roots j ∧ k ∈ g.dependencies j)
    (hnext : ∀ j ∈ s'.keys, j ∉ s.keys → ∀ k ∈ g.dependencies j, k ∈ g.keys →
      k ∈ s'.keys ++ pending') :
    Searching g roots s' pending' where
  reached := hreached
  sound k hk hdeclared := by
    rcases hfound k hk hdeclared with hk | ⟨j, hj, hk⟩
    · exact h.sound k hk hdeclared
    · exact hj.of_dependencies hg hk hdeclared
  root_found r hr hdeclared := hkept _ (h.root_found r hr hdeclared) hdeclared
  next_found j hj k hk hdeclared := by
    by_cases hold : j ∈ s.keys
    · exact hkept k (h.next_found j hold k hk hdeclared) hdeclared
    · exact hnext j hj hold k hk hdeclared

/-- When nothing is pending, exactly what is needed was reached. -/
theorem mem_iff (hg : g.Inserted) (h : Searching g roots s []) :
    k ∈ s.keys ↔ Needs g roots k := by
  constructor
  · exact fun hk => h.sound k (List.mem_append_left _ hk) (h.reached.declared k hk)
  · intro hk
    refine hk.along hg (fun r hr hdeclared => ?_) fun j k hj hdep hdeclared => ?_
    · simpa using h.root_found r hr hdeclared
    · simpa using h.next_found j hj k hdep hdeclared

end Searching

/-! ### The walk over the elements -/

def Gathered.pending (w : Gathered) (q : Queue) : List Key :=
  q.waiting.map .element ++ w.entities.map (.entity .general)

/-- What holds in a walk. -/
structure Walking (g : Graph) (roots : List Text) (w : Gathered) (q : Queue) : Prop where
  searching : Searching g roots w.set (w.pending q)
  /-- A declared element that ever waited was visited or still waits. -/
  visited_found : ∀ n ∈ q.visited, .element n ∈ g.keys → .element n ∈ w.set.keys ∨
    n ∈ q.waiting

theorem mem_pending_iff : k ∈ w.set.keys ++ w.pending q ↔
    k ∈ w.found ∨ ∃ n ∈ q.waiting, k = .element n := by
  simp only [Gathered.pending, Gathered.found, List.mem_append, List.mem_map, @eq_comm Key k]
  rw [@or_comm (∃ _, _), or_assoc]

namespace Walking

variable {e : Element} {waiting visited : List Text}

/-- A name that is not declared is passed over. -/
theorem skip (hg : g.Inserted) (h : Walking g roots w ⟨n :: waiting, visited⟩)
    (hn : g.element? n = none) : Walking g roots w ⟨waiting, visited⟩ := by
  have hne {m : Text} (hm : .element m ∈ g.keys) : m ≠ n := by
    rintro rfl
    simp [hn] at hm
  refine ⟨h.searching.step hg h.searching.reached (fun k hk hdeclared => ?_) (fun k hk _ => ?_)
    fun j hj hnew => absurd hj hnew, fun m hm hdeclared => ?_⟩
  · rw [mem_pending_iff] at hk ⊢
    refine hk.imp_right ?_
    rintro ⟨m, hm, rfl⟩
    exact ⟨m, (List.mem_cons.1 hm).resolve_left (hne hdeclared), rfl⟩
  · rw [mem_pending_iff] at hk ⊢
    exact .inl (hk.imp_right fun ⟨m, hm, heq⟩ => ⟨m, List.mem_cons_of_mem _ hm, heq⟩)
  · exact (h.visited_found m hm hdeclared).imp_right fun hm =>
      (List.mem_cons.1 hm).resolve_left (hne hdeclared)

@[simp] theorem walk_nil : g.walk w ⟨[], visited⟩ = w := by
  rw [Graph.walk]

theorem walk_cons (he : g.element? n = some e) : g.walk w ⟨n :: waiting, visited⟩ =
    g.walk (g.gatherElement w n)
      (e.content.elementNames.foldl g.pushChild ⟨waiting, visited⟩) := by
  rw [Graph.walk]
  simp only [he]

/-- An element that ever waited, and a child of the element that is visited, was reached or
waits behind the visit. -/
theorem found_of_visited {m : Text} (h : Walking g roots w ⟨n :: waiting, visited⟩)
    (hm : m ∈ visited ∨ m ∈ e.content.elementNames) (hkey : .element m ∈ g.keys) :
    .element m ∈ (g.gatherElement w n).set.keys ∨
      m ∈ (e.content.elementNames.foldl g.pushChild ⟨waiting, visited⟩).waiting := by
  rw [mem_waiting_pushChildren_iff]
  by_cases hold : m ∈ visited
  · rcases h.visited_found m hold hkey with hm | hm
    · exact .inl (keys_subset_gatherElement hm)
    · rcases List.mem_cons.1 hm with rfl | hm
      · exact .inl element_mem_keys_gatherElement
      · exact .inr (.inl hm)
  · exact .inr (.inr ⟨hm.resolve_left hold, hkey, hold⟩)

/-- A visit finds what an element and its attributes depend on, and loses nothing. -/
theorem mem_visit_iff (h : Walking g roots w ⟨n :: waiting, visited⟩)
    (he : g.element? n = some e) (hkey : k ∈ g.keys) :
    k ∈ (g.gatherElement w n).set.keys ++ (g.gatherElement w n).pending
        (e.content.elementNames.foldl g.pushChild ⟨waiting, visited⟩) ↔
      k ∈ w.set.keys ++ w.pending ⟨n :: waiting, visited⟩ ∨
        k ∈ g.dependencies (.element n) ∨
          ∃ a ∈ g.attributesOf n, k ∈ attributeDependencies a := by
  have hdependencies : k ∈ g.dependencies (.element n) ↔
      (∃ m ∈ e.content.elementNames, k = .element m) ∨
        ∃ a ∈ g.attributesOf n, k = .attributeOf a.element a.name := by
    simp [dependencies_element he, @eq_comm Key k]
  rw [mem_pending_iff, mem_pending_iff, hdependencies]
  constructor
  · rw [mem_found_gatherElement_iff hkey]
    rintro (((hk | rfl) | ⟨a, ha, rfl | hk⟩) | ⟨m, hm, rfl⟩)
    · exact .inl (.inl hk)
    · exact .inl (.inr ⟨n, List.mem_cons_self, rfl⟩)
    · exact .inr (.inl (.inr ⟨a, ha, rfl⟩))
    · exact .inr (.inr ⟨a, ha, hk⟩)
    · rcases mem_waiting_pushChildren_iff.1 hm with hm | ⟨hm, -⟩
      · exact .inl (.inr ⟨m, List.mem_cons_of_mem _ hm, rfl⟩)
      · exact .inr (.inl (.inl ⟨m, hm, rfl⟩))
  · rintro ((hk | ⟨m, hm, rfl⟩) | (⟨m, hm, rfl⟩ | ⟨a, ha, rfl⟩) | ⟨a, ha, hk⟩)
    · exact .inl ((mem_found_gatherElement_iff hkey).2 (.inl (.inl hk)))
    · rcases List.mem_cons.1 hm with rfl | hm
      · exact .inl (List.mem_append_left _ element_mem_keys_gatherElement)
      · exact .inr ⟨m, mem_waiting_pushChildren_iff.2 (.inl hm), rfl⟩
    · rcases h.found_of_visited (.inr hm) hkey with hm | hm
      · exact .inl (List.mem_append_left _ hm)
      · exact .inr ⟨m, hm, rfl⟩
    · exact .inl ((mem_found_gatherElement_iff hkey).2 (.inr ⟨a, ha, .inl rfl⟩))
    · exact .inl ((mem_found_gatherElement_iff hkey).2 (.inr ⟨a, ha, .inr hk⟩))

/-- A visit to a declared element keeps what holds in a walk. -/
theorem visit (hg : g.Inserted) (h : Walking g roots w ⟨n :: waiting, visited⟩)
    (he : g.element? n = some e) :
    Walking g roots (g.gatherElement w n)
      (e.content.elementNames.foldl g.pushChild ⟨waiting, visited⟩) := by
  have hdeclared : .element n ∈ g.keys := element_mem_keys_iff.2 ⟨e, he⟩
  have hneeds : Needs g roots (.element n) :=
    h.searching.sound _ (mem_pending_iff.2 (.inr ⟨n, List.mem_cons_self, rfl⟩)) hdeclared
  refine ⟨h.searching.step hg (of_gatherElement hg h.searching.reached hdeclared)
    (fun k hk hkey => (h.mem_visit_iff he hkey).2 (.inl hk)) (fun k hk hkey => ?_)
    (fun j hj hnew k hk hkey => (h.mem_visit_iff he hkey).2 (.inr ?_)), fun m hm hkey => ?_⟩
  · rcases (h.mem_visit_iff he hkey).1 hk with hk | hk | ⟨a, ha, hk⟩
    · exact .inl hk
    · exact .inr ⟨_, hneeds, hk⟩
    · obtain ⟨rfl, hfind⟩ := hg.attribute?_of_mem_attributesOf ha
      have hneeds' : Needs g roots (.attributeOf a.element a.name) := .attributeOf hneeds hfind
      exact .inr ⟨_, hneeds', by rwa [dependencies_attributeOf hfind]⟩
  · rcases mem_keys_gatherElement hj with hj | rfl | ⟨a, ha, rfl⟩ | ⟨m, rfl⟩
    · exact absurd hj hnew
    · exact .inl hk
    · obtain ⟨rfl, hfind⟩ := hg.attribute?_of_mem_attributesOf ha
      rw [dependencies_attributeOf hfind] at hk
      exact .inr ⟨a, ha, hk⟩
    · simp [dependencies] at hk
  · rcases mem_visited_pushChildren_iff.1 hm with hm | ⟨hm, -⟩
    · exact h.found_of_visited (.inl hm) hkey
    · exact h.found_of_visited (.inr hm) hkey

/-- A walk ends with an empty queue. -/
theorem walk (hg : g.Inserted) (h : Walking g roots w q) :
    ∃ visited, Walking g roots (g.walk w q) ⟨[], visited⟩ := by
  fun_induction Graph.walk g w q with
  | case1 w visited => exact ⟨visited, h⟩
  | case2 w n waiting visited hn ih => exact ih (h.skip hg hn)
  | case3 w n waiting visited e he ih => exact ih (h.visit hg he)

end Walking

/-! ### The closure of the entities -/

/-- What holds while entities are followed. -/
structure Closing (g : Graph) (roots : List Text) (s : ReachableSet)
    (seen pending : List Text) : Prop where
  searching : Searching g roots s (pending.map (.entity .general))
  /-- A declared entity that was seen was reached. -/
  seen_found : ∀ n ∈ seen, .entity .general n ∈ g.keys → .entity .general n ∈ s.keys

namespace Closing

variable {seen pending : List Text} {e : Entity}

theorem skip (hg : g.Inserted) (h : Closing g roots s seen (n :: pending))
    (hn : .entity .general n ∈ g.keys → .entity .general n ∈ s.keys) :
    Closing g roots s seen pending := by
  refine ⟨h.searching.step hg h.searching.reached (fun k hk hkey => ?_) (fun k hk _ => ?_)
    fun j hj hnew => absurd hj hnew, h.seen_found⟩
  · rw [List.map_cons, List.mem_append, List.mem_cons] at hk
    rcases hk with hk | rfl | hk
    · exact List.mem_append_left _ hk
    · exact List.mem_append_left _ (hn hkey)
    · exact List.mem_append_right _ hk
  · refine .inl ?_
    rw [List.map_cons, List.mem_append, List.mem_cons]
    exact (List.mem_append.1 hk).imp_right .inr

theorem see (h : Closing g roots s seen pending)
    (hn : .entity .general n ∈ g.keys → .entity .general n ∈ s.keys) :
    Closing g roots s (n :: seen) pending := by
  refine ⟨h.searching, fun m hm hkey => ?_⟩
  rcases List.mem_cons.1 hm with rfl | hm
  · exact hn hkey
  · exact h.seen_found m hm hkey

theorem mem_keys_gatherEntity_iff : k ∈ (g.gatherEntity s n e).keys ↔
    (k ∈ s.keys ∨ k = .entity .general n) ∨
      k ∈ (e.notationName?.toList).map .notationType ∧ k ∈ g.keys := by
  unfold gatherEntity
  cases e.notationName? with
  | none => simp
  | some m => simp [mem_insertNotationType_iff]

theorem of_gatherEntity (h : s.Of g roots) (hn : .entity .general n ∈ g.keys) :
    (g.gatherEntity s n e).Of g roots := by
  unfold gatherEntity
  split
  · exact of_insertNotationType (h.insert hn)
  · exact h.insert hn

@[simp] theorem closeEntities_nil : g.closeEntities s seen [] = s := by
  rw [Graph.closeEntities]

theorem closeEntities_cons (hn : n ∉ seen) (he : g.entity? .general n = some e) :
    g.closeEntities s seen (n :: pending) =
      g.closeEntities (g.gatherEntity s n e) (n :: seen)
        ((innerEntities e).reverse ++ pending) := by
  rw [Graph.closeEntities, dif_neg hn]
  split
  · next hnone => cases hnone.symm.trans he
  · next d hd => rw [Option.some.inj (hd.symm.trans he)]

/-- Following a declared entity keeps what holds. -/
theorem follow (hg : g.Inserted) (h : Closing g roots s seen (n :: pending))
    (he : g.entity? .general n = some e) :
    Closing g roots (g.gatherEntity s n e) (n :: seen)
      ((innerEntities e).reverse ++ pending) := by
  have hdeclared : .entity .general n ∈ g.keys := entity_mem_keys_iff.2 ⟨e, he⟩
  have hneeds : Needs g roots (.entity .general n) := h.searching.sound _ (by simp) hdeclared
  have hdependencies := dependencies_entity he
  -- what is found is what was, the entity itself and what it depends on
  have hfound {k : Key} (hkey : k ∈ g.keys) :
      k ∈ (g.gatherEntity s n e).keys ++
          ((innerEntities e).reverse ++ pending).map (.entity .general) ↔
        k ∈ s.keys ++ (n :: pending).map (.entity .general) ∨ k ∈ entityDependencies e := by
    rw [List.mem_append, mem_keys_gatherEntity_iff, and_iff_left hkey, entityDependencies]
    simp only [List.map_append, List.map_reverse, List.map_cons, List.mem_append,
      List.mem_reverse, List.mem_cons]
    tauto
  refine ⟨h.searching.step hg (of_gatherEntity h.searching.reached hdeclared)
    (fun k hk hkey => (hfound hkey).2 (.inl hk)) (fun k hk hkey => ?_)
    (fun j hj hnew k hk hkey => ?_), fun m hm hkey => ?_⟩
  · exact ((hfound hkey).1 hk).imp_right fun hk => ⟨_, hneeds, hdependencies ▸ hk⟩
  · rcases mem_keys_gatherEntity_iff.1 hj with (hj | rfl) | ⟨hj, -⟩
    · exact absurd hj hnew
    · exact (hfound hkey).2 (.inr (hdependencies ▸ hk))
    · obtain ⟨m, -, rfl⟩ := List.mem_map.1 hj
      simp [dependencies] at hk
  · rw [mem_keys_gatherEntity_iff]
    rcases List.mem_cons.1 hm with rfl | hm
    · exact .inl (.inr rfl)
    · exact .inl (.inl (h.seen_found m hm hkey))

/-- The entities are followed until nothing is pending. -/
theorem closeEntities (hg : g.Inserted) (h : Closing g roots s seen pending) :
    Searching g roots (g.closeEntities s seen pending) [] := by
  fun_induction Graph.closeEntities g s seen pending with
  | case1 s seen => exact h.searching
  | case2 s seen n pending hseen ih =>
      exact ih (h.skip hg (h.seen_found n hseen))
  | case3 s seen n pending _ hn ih =>
      have hundeclared : .entity .general n ∉ g.keys := by simp [hn]
      exact ih ((h.skip hg fun hkey => absurd hkey hundeclared).see
        fun hkey => absurd hkey hundeclared)
  | case4 s seen n pending _ e he ih => exact ih (h.follow hg he)

end Closing

theorem Walking.closing {visited : List Text} (h : Walking g roots w ⟨[], visited⟩) :
    Closing g roots w.set [] w.entities :=
  ⟨h.searching, by simp⟩

end Graph
end Doctype
