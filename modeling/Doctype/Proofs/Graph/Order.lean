import Doctype.Proofs.Graph.Build
import Mathlib.Data.List.Induction

/-!
The order of declarations. Each kind of declaration, reduced to keys and places, is the list of
the keys that the events bring in, with their places, of which the first one of each key is
kept (`Table.firsts`); what comes later may change a declaration, but not its key and its
place. So the place of a declaration is that of the first event which brings in its key
(`FirstAt`), and the declarations stand in the order of their places.
-/

namespace Doctype

/-! ### Entries -/

namespace Table

variable {α κ ν : Type} [DecidableEq κ] {key : α → κ} {entry : α → κ × ν}

theorem map_entry_put (hkey : ∀ a, (entry a).1 = key a) {keep : α → α → α}
    (hkeep : ∀ a b, key a = key b → entry (keep a b) = entry a) (item : α) (items : List α) :
    (put key keep item items).map entry = putNew Prod.fst (entry item) (items.map entry) := by
  have hkeys : (items.map entry).map Prod.fst = items.map key := by
    simp [Function.comp_def, hkey]
  unfold put putNew
  simp only [isSome_find?_iff, hkeys, hkey]
  split
  · rw [List.map_map]
    refine List.map_congr_left fun a _ => ?_
    by_cases ha : key a = key item <;> simp [ha, hkeep]
  · rw [List.map_append, List.map_singleton]

theorem map_entry_putNew (hkey : ∀ a, (entry a).1 = key a) (item : α) (items : List α) :
    (putNew key item items).map entry = putNew Prod.fst (entry item) (items.map entry) := by
  have hkeys : (items.map entry).map Prod.fst = items.map key := by
    simp [Function.comp_def, hkey]
  unfold putNew
  simp only [isSome_find?_iff, hkeys, hkey]
  split
  · rfl
  · rw [List.map_append, List.map_singleton]

def addAll (table entries : List (κ × ν)) : List (κ × ν) :=
  entries.foldl (fun table entry => putNew Prod.fst entry table) table

def firsts (entries : List (κ × ν)) : List (κ × ν) :=
  addAll [] entries

variable {entries : List (κ × ν)}

theorem addAll_append (table entries entries' : List (κ × ν)) :
    addAll table (entries ++ entries') = addAll (addAll table entries) entries' :=
  List.foldl_append

theorem foldl_addAll {σ ε : Type} {step : σ → ε → σ} (view : σ → List (κ × ν))
    {sel : ε → List (κ × ν)} (hstep : ∀ s e, view (step s e) = addAll (view s) (sel e))
    (es : List ε) (s : σ) : view (es.foldl step s) = addAll (view s) (es.flatMap sel) := by
  induction es generalizing s with
  | nil => rfl
  | cons e es ih => rw [List.foldl_cons, ih, hstep, List.flatMap_cons, addAll_append]

theorem addAll_sublist (table entries : List (κ × ν)) :
    (addAll table entries).Sublist (table ++ entries) := by
  induction entries generalizing table with
  | nil => simp [addAll]
  | cons p entries ih =>
      have hput : (putNew Prod.fst p table ++ entries).Sublist (table ++ p :: entries) := by
        unfold putNew
        split
        · exact (List.sublist_cons_self p entries).append_left table
        · simp
      exact (ih _).trans hput

theorem firsts_sublist (entries : List (κ × ν)) : (firsts entries).Sublist entries :=
  addAll_sublist [] entries

theorem firsts_append_singleton (entries : List (κ × ν)) (p : κ × ν) :
    firsts (entries ++ [p]) = putNew Prod.fst p (firsts entries) := by
  simp [firsts, addAll]

theorem mem_keys_firsts {k : κ} :
    k ∈ (firsts entries).map Prod.fst ↔ k ∈ entries.map Prod.fst := by
  induction entries using List.reverseRecOn with
  | nil => rfl
  | append_singleton entries p ih =>
      rw [firsts_append_singleton, keys_putNew, List.map_append, List.mem_append, ← ih]
      split
      · next hold =>
        refine ⟨.inl, fun h => h.elim id fun hk => ?_⟩
        rwa [List.mem_singleton.1 hk]
      · rw [List.mem_append, List.map_singleton]

/-- If entries stand in an order, none with the same key is in front of the first one. -/
theorem le_of_mem_firsts {entries : List (κ × Nat)}
    (h : entries.Pairwise fun p q => p.2 ≤ q.2) {p : κ × Nat} (hp : p ∈ firsts entries) :
    ∀ q ∈ entries, q.1 = p.1 → p.2 ≤ q.2 := by
  induction entries using List.reverseRecOn with
  | nil => simp
  | append_singleton entries r ih =>
      obtain ⟨hentries, -, hlast⟩ := List.pairwise_append.1 h
      rw [firsts_append_singleton] at hp
      intro q hq hkey
      rcases List.mem_append.1 hq with hold | hlast'
      · unfold putNew at hp
        split at hp
        · exact ih hentries hp q hold hkey
        · next hnew =>
          rcases List.mem_append.1 hp with hp | hp
          · exact ih hentries hp q hold hkey
          · -- the last entry is kept only if its key is new
            rw [isSome_find?_iff, mem_keys_firsts, ← List.mem_singleton.1 hp] at hnew
            exact absurd (List.mem_map.2 ⟨q, hold, hkey⟩) hnew
      · rcases mem_putNew hp with rfl | hp
        · exact Nat.le_of_eq (congrArg Prod.snd (List.mem_singleton.1 hlast').symm)
        · exact hlast p ((firsts_sublist entries).subset hp) q hlast'

end Table

/-! ### Places -/

/-- At the place, counted from one, stands an event with the property. -/
structure StandsAt (P : Event → Prop) (events : List Event) (order : Nat) : Prop where
  one_le : 1 ≤ order
  le_length : order ≤ events.length
  holds : ∃ e, events[order - 1]? = some e ∧ P e

/-- At the place stands an event with the property, and none stands in front of it. -/
structure FirstAt (P : Event → Prop) (events : List Event) (order : Nat) :
    Prop extends StandsAt P events order where
  first : ∀ i e, i + 1 < order → events[i]? = some e → ¬ P e

theorem StandsAt.of_mem_zipIdx {events : List Event} {e : Event} {order : Nat}
    (h : (e, order) ∈ events.zipIdx 1) : StandsAt (· = e) events order := by
  obtain ⟨hone, he⟩ := List.mk_mem_zipIdx_iff_le_and_getElem?_sub.1 h
  have hlength := (List.getElem?_eq_some_iff.1 he).1
  exact ⟨hone, by omega, e, he, rfl⟩

theorem FirstAt.congr {P Q : Event → Prop} {events : List Event} {order : Nat}
    (h : FirstAt P events order) (hPQ : ∀ e, P e ↔ Q e) : FirstAt Q events order := by
  have heq : P = Q := funext fun e => propext (hPQ e)
  exact heq ▸ h

section Entries

variable {κ : Type} {keys : Event → List κ} {events : List Event}

def entriesOf (keys : Event → List κ) (events : List Event) : List (κ × Nat) :=
  (events.zipIdx 1).flatMap fun e => (keys e.1).map (·, e.2)

theorem mem_entriesOf {k : κ} {order : Nat} : (k, order) ∈ entriesOf keys events ↔
    1 ≤ order ∧ ∃ e, events[order - 1]? = some e ∧ k ∈ keys e := by
  simp only [entriesOf, List.mem_flatMap, List.mem_map, Prod.exists,
    List.mk_mem_zipIdx_iff_le_and_getElem?_sub, Prod.mk.injEq]
  constructor
  · rintro ⟨e, i, ⟨hi, he⟩, k', hk, rfl, rfl⟩
    exact ⟨hi, e, he, hk⟩
  · rintro ⟨hi, e, he, hk⟩
    exact ⟨e, order, ⟨hi, he⟩, k, hk, rfl, rfl⟩

theorem pairwise_zipIdx (events : List Event) :
    (events.zipIdx 1).Pairwise fun p q => p.2 < q.2 := by
  have hplaces := List.pairwise_lt_range' (s := 1) (n := events.length)
  rw [← List.zipIdx_map_snd, List.pairwise_map] at hplaces
  exact hplaces

theorem pairwise_entriesOf (keys : Event → List κ) (events : List Event) :
    (entriesOf keys events).Pairwise fun p q => p.2 ≤ q.2 := by
  refine List.pairwise_flatMap.2
    ⟨fun e _ => List.pairwise_map.2 (List.pairwise_of_forall fun _ _ => Nat.le_refl _), ?_⟩
  refine (pairwise_zipIdx events).imp fun h p hp q hq => ?_
  obtain ⟨k, -, rfl⟩ := List.mem_map.1 hp
  obtain ⟨k', -, rfl⟩ := List.mem_map.1 hq
  exact Nat.le_of_lt h

theorem pairwise_entriesOf_lt (hkeys : ∀ e, (keys e).length ≤ 1) (events : List Event) :
    (entriesOf keys events).Pairwise fun p q => p.2 < q.2 := by
  refine List.pairwise_flatMap.2 ⟨fun e _ => ?_, ?_⟩
  · have hlength := hkeys e.1
    match hk : keys e.1 with
    | [] => exact .nil
    | [k] => exact List.pairwise_singleton _ _
    | k :: k' :: ks => simp [hk] at hlength
  · refine (pairwise_zipIdx events).imp fun h p hp q hq => ?_
    obtain ⟨k, -, rfl⟩ := List.mem_map.1 hp
    obtain ⟨k', -, rfl⟩ := List.mem_map.1 hq
    exact h

theorem firstAt_of_mem_firsts [DecidableEq κ] {k : κ} {order : Nat}
    (h : (k, order) ∈ Table.firsts (entriesOf keys events)) :
    FirstAt (k ∈ keys ·) events order := by
  have hmem := (Table.firsts_sublist _).subset h
  obtain ⟨hone, e, he, hk⟩ := mem_entriesOf.1 hmem
  have hlength := (List.getElem?_eq_some_iff.1 he).1
  refine ⟨⟨hone, by omega, e, he, hk⟩, fun i e' hi he' hk' => ?_⟩
  have hentry : (k, i + 1) ∈ entriesOf keys events :=
    mem_entriesOf.2 ⟨Nat.le_add_left 1 i, e', he', hk'⟩
  have hle := Table.le_of_mem_firsts (pairwise_entriesOf keys events) h _ hentry rfl
  exact absurd hle (Nat.not_le.2 hi)

section Items

variable {α : Type} [DecidableEq κ] {items : List α} {entry : α → κ × Nat}
  (h : items.map entry = Table.firsts (entriesOf keys events))
include h

theorem firstAt_of_entries : ∀ a ∈ items, FirstAt ((entry a).1 ∈ keys ·) events (entry a).2 :=
  fun _ ha => firstAt_of_mem_firsts (h ▸ List.mem_map_of_mem ha)

theorem pairwise_of_entries : items.Pairwise fun a b => (entry a).2 ≤ (entry b).2 := by
  have hentries := (pairwise_entriesOf keys events).sublist (Table.firsts_sublist _)
  rwa [← h, List.pairwise_map] at hentries

theorem pairwise_lt_of_entries (hkeys : ∀ e, (keys e).length ≤ 1) :
    items.Pairwise fun a b => (entry a).2 < (entry b).2 := by
  have hentries := (pairwise_entriesOf_lt hkeys events).sublist (Table.firsts_sublist _)
  rwa [← h, List.pairwise_map] at hentries

end Items
end Entries

/-! ### What events bring in -/

namespace Event

def elementNames : Event → List Text
  | element name _ => [name]
  | _ => []

def entityNames (s : Scope) : Event → List Text
  | entity scope name raw =>
    if scope = s ∧ (Entity.Definition.ofRaw? scope raw).isSome then [name] else []
  | _ => []

def notationNames : Event → List Text
  | notationType name raw => if (ExternalId.ofNotation raw).toOption.isSome then [name] else []
  | _ => []

def attributeKeys (g : Graph) (limits : Limits) : Event → List (Text × Text)
  | attributeList owner body =>
    (((Attribute.Definition.parseAll body).toOption.getD []).filter
      fun d => (d.normalized? g limits).isSome).map fun d => (owner, d.name)
  | _ => []

theorem eq_of_comment? {e : Event × Nat} {c : Comment} (h : comment? e = some c) :
    e = (.comment c.text, c.order) := by
  unfold comment? at h
  split at h <;> cases h
  rfl

theorem eq_of_instruction? {e : Event × Nat} {i : Instruction} (h : instruction? e = some i) :
    e = (.instruction i.target i.data, i.order) := by
  unfold instruction? at h
  split at h <;> cases h
  rfl

theorem length_elementNames_le (e : Event) : e.elementNames.length ≤ 1 := by
  unfold elementNames
  split <;> simp

theorem length_entityNames_le (s : Scope) (e : Event) : (e.entityNames s).length ≤ 1 := by
  unfold entityNames
  split
  · split <;> simp
  · simp

theorem length_notationNames_le (e : Event) : e.notationNames.length ≤ 1 := by
  unfold notationNames
  split
  · split <;> simp
  · simp

theorem mem_elementNames_iff {n : Text} {e : Event} :
    n ∈ e.elementNames ↔ (e.contentModel? n).isSome = true := by
  cases e with
  | element name raw =>
      by_cases hn : name = n <;> simp [elementNames, contentModel?, hn, Ne.symm]
  | _ => simp [elementNames, contentModel?]

theorem mem_entityNames_iff {s : Scope} {n : Text} {e : Event} :
    n ∈ e.entityNames s ↔ (e.entityDefinition? s n).isSome = true := by
  cases e with
  | entity scope name raw =>
      by_cases hs : scope = s
      · subst hs
        by_cases hn : name = n
        · cases hd : Entity.Definition.ofRaw? scope raw <;>
            simp [entityNames, entityDefinition?, hn, hd]
        · cases hd : Entity.Definition.ofRaw? scope raw <;>
            simp [entityNames, entityDefinition?, hn, hd, Ne.symm hn]
      · simp [entityNames, entityDefinition?, hs]
  | _ => simp [entityNames, entityDefinition?]

theorem mem_notationNames_iff {n : Text} {e : Event} :
    n ∈ e.notationNames ↔ (e.externalId? n).isSome = true := by
  cases e with
  | «notationType» name raw =>
      by_cases hn : name = n
      · cases hid : (ExternalId.ofNotation raw).toOption <;>
          simp [notationNames, externalId?, hn, hid]
      · cases hid : (ExternalId.ofNotation raw).toOption <;>
          simp [notationNames, externalId?, hn, hid, Ne.symm hn]
  | _ => simp [notationNames, externalId?]

theorem mem_attributeKeys_iff {g : Graph} {limits : Limits} {element n : Text} {e : Event} :
    (element, n) ∈ e.attributeKeys g limits ↔
      ∃ d ∈ e.attributeDefinitions element, d.name = n ∧
        (d.normalized? g limits).isSome = true := by
  cases e with
  | attributeList owner body =>
      by_cases howner : owner = element
      · subst howner
        simp only [attributeKeys, attributeDefinitions, if_true, List.mem_map, List.mem_filter,
          Prod.mk.injEq, true_and]
        exact exists_congr fun d => by tauto
      · simp [attributeKeys, attributeDefinitions, howner]
  | _ => simp [attributeKeys, attributeDefinitions]

theorem attributeKeys_congr {g g' : Graph} (h : g.SameDefinitions g') (limits : Limits)
    (e : Event) : e.attributeKeys g limits = e.attributeKeys g' limits := by
  unfold attributeKeys
  rw [Attribute.Definition.normalized?_congr h]

end Event

/-! ### Events one by one -/

namespace Graph

variable {limits : Limits}

def elementEntry (e : Element) : Text × Nat :=
  (e.name, e.order)

def attributeEntry (a : Attribute) : (Text × Text) × Nat :=
  (attributeKey a, a.order)

def entityEntry (e : Entity) : Text × Nat :=
  (e.name, e.order)

def notationEntry (n : NotationType) : Text × Nat :=
  (n.name, n.order)

theorem elementEntries_addEvent (b : Built) (e : Event × Nat) :
    (addEvent limits b e).graph.elements.map elementEntry =
      Table.addAll (b.graph.elements.map elementEntry) (e.1.elementNames.map (·, e.2)) := by
  obtain ⟨e, order⟩ := e
  cases e with
  | element name raw =>
      simp only [addEvent, Element.declare_eq, elements_insertElement]
      exact Table.map_entry_put (fun _ => rfl)
        (fun a b hkey => congrArg (·, a.order) hkey.symm) _ _
  | entity scope name raw =>
      obtain ⟨_, _, hframe⟩ := exists_entities_addEvent limits b scope name raw order
      rw [hframe]
      rfl
  | «notationType» name raw =>
      obtain ⟨_, hframe⟩ := exists_notations_addEvent limits b name raw order
      rw [hframe]
      rfl
  | _ => rfl

theorem entityEntries_addEvent (s : Scope) (b : Built) (e : Event × Nat) :
    ((addEvent limits b e).graph.entities s).map entityEntry =
      Table.addAll ((b.graph.entities s).map entityEntry)
        ((e.1.entityNames s).map (·, e.2)) := by
  obtain ⟨e, order⟩ := e
  cases e with
  | entity scope name raw =>
      rcases Entity.declare_cases limits scope name raw order
        with ⟨d, hd, hok, -⟩ | ⟨fault, hd, hf, -⟩
      · simp only [addEvent, hok, entities_insertEntity, Event.entityNames, hd,
          Option.isSome_some, and_true]
        by_cases hs : scope = s
        · rw [if_pos hs, if_pos hs]
          exact Table.map_entry_putNew (fun _ => rfl) _ _
        · rw [if_neg hs, if_neg hs]
          rfl
      · simp only [addEvent, hf, Event.entityNames, hd, Option.isSome_none, Bool.false_eq_true,
          and_false, if_false]
        rfl
  | «notationType» name raw =>
      obtain ⟨_, hframe⟩ := exists_notations_addEvent limits b name raw order
      rw [hframe]
      cases s <;> rfl
  | _ => cases s <;> rfl

theorem notationEntries_addEvent (b : Built) (e : Event × Nat) :
    (addEvent limits b e).graph.notations.map notationEntry =
      Table.addAll (b.graph.notations.map notationEntry) (e.1.notationNames.map (·, e.2)) := by
  obtain ⟨e, order⟩ := e
  cases e with
  | entity scope name raw =>
      obtain ⟨_, _, hframe⟩ := exists_entities_addEvent limits b scope name raw order
      rw [hframe]
      rfl
  | «notationType» name raw =>
      simp only [addEvent, Event.notationNames]
      cases ExternalId.ofNotation raw with
      | error e => rfl
      | ok id =>
          simp only [notations_insertNotation]
          exact Table.map_entry_put (fun _ => rfl)
            (fun a b hkey => congrArg (·, a.order) hkey.symm) _ _
  | _ => rfl

theorem map_attributeEntry_declare (g : Graph) (limits : Limits) (owner : Text) (order : Nat)
    (ds : List Attribute.Definition) :
    ((ds.map (Attribute.declare g limits owner order)).filterMap (·.1)).map attributeEntry =
      ((ds.filter fun d => (d.normalized? g limits).isSome).map fun d => (owner, d.name)).map
        (·, order) := by
  induction ds with
  | nil => rfl
  | cons d ds ih =>
      rw [List.map_cons, List.filterMap_cons, Attribute.declare_eq, List.filter_cons]
      cases d.normalized? g limits with
      | none => exact ih
      | some v => exact congrArg (((owner, d.name), order) :: ·) ih

theorem attributeEntries_addAttributes (b : Built) (e : Event × Nat) :
    (addAttributes limits b e).graph.attributes.map attributeEntry =
      Table.addAll (b.graph.attributes.map attributeEntry)
        ((e.1.attributeKeys b.graph limits).map (·, e.2)) := by
  obtain ⟨e, order⟩ := e
  cases e with
  | attributeList owner body =>
      simp only [addAttributes, Event.attributeKeys]
      cases Attribute.Definition.parseAll body with
      | error e => rfl
      | ok ds =>
          have hinsert (g : Graph) (a : Attribute) :
              (g.insertAttribute a).2.attributes.map attributeEntry =
              Table.addAll (g.attributes.map attributeEntry) [attributeEntry a] := by
            rw [attributes_insertAttribute]
            exact Table.map_entry_put (fun _ => rfl)
              (fun a b hkey => congrArg (·, a.order) hkey.symm) _ _
          have hentries := map_attributeEntry_declare b.graph limits owner order ds
          simp only [Except.toOption, Option.getD_some, ← hentries]
          rw [Table.foldl_addAll (fun g : Graph => g.attributes.map attributeEntry)
            hinsert, ← List.map_eq_flatMap]
  | _ => rfl

/-! ### Lists of events -/

/-- The place of a declaration is that of the first event which brings it in, whatever later
ones say; comments and instructions have their own places. -/
structure PlacedBy (g : Graph) (limits : Limits) (events : List Event) : Prop where
  elements : ∀ d ∈ g.elements,
    FirstAt (fun e => (e.contentModel? d.name).isSome = true) events d.order
  entities : ∀ s, ∀ d ∈ g.entities s,
    FirstAt (fun e => (e.entityDefinition? s d.name).isSome = true) events d.order
  notations : ∀ d ∈ g.notations,
    FirstAt (fun e => (e.externalId? d.name).isSome = true) events d.order
  attributes : ∀ a ∈ g.attributes,
    FirstAt (fun e => ∃ d ∈ e.attributeDefinitions a.element, d.name = a.name ∧
    (d.normalized? g limits).isSome = true) events a.order
  comments : ∀ c ∈ g.comments, StandsAt (· = .comment c.text) events c.order
  instructions : ∀ i ∈ g.instructions,
    StandsAt (· = .instruction i.target i.data) events i.order

/-- The declarations of a kind stand in the order of their places. Attributes of one list share
a place. -/
structure InOrder (g : Graph) : Prop where
  elements : g.elements.Pairwise (·.order < ·.order)
  entities : ∀ s, (g.entities s).Pairwise (·.order < ·.order)
  notations : g.notations.Pairwise (·.order < ·.order)
  attributes : g.attributes.Pairwise (·.order ≤ ·.order)
  comments : g.comments.Pairwise (·.order < ·.order)
  instructions : g.instructions.Pairwise (·.order < ·.order)

section Build

variable (limits : Limits) (events : List Event)

theorem elementEntries_build : (build limits events).graph.elements.map elementEntry =
    Table.firsts (entriesOf Event.elementNames events) := by
  obtain ⟨_, _, hframe⟩ := exists_attributes_build limits events
  rw [hframe]
  exact Table.foldl_addAll (fun b : Built => b.graph.elements.map elementEntry)
    elementEntries_addEvent _ _

theorem entityEntries_build (s : Scope) :
    ((build limits events).graph.entities s).map entityEntry =
      Table.firsts (entriesOf (Event.entityNames s) events) := by
  obtain ⟨_, _, hframe⟩ := exists_attributes_build limits events
  have hsame : (build limits events).graph.entities s =
      (beforeAttributes limits events).graph.entities s := by
    rw [hframe]
    cases s <;> rfl
  rw [hsame]
  have hrun := Table.foldl_addAll (fun b : Built => (b.graph.entities s).map entityEntry)
    (@entityEntries_addEvent limits s) (events.zipIdx 1) ⟨.empty, []⟩
  cases s <;> exact hrun

theorem notationEntries_build : (build limits events).graph.notations.map notationEntry =
    Table.firsts (entriesOf Event.notationNames events) := by
  obtain ⟨_, _, hframe⟩ := exists_attributes_build limits events
  rw [hframe]
  exact Table.foldl_addAll (fun b : Built => b.graph.notations.map notationEntry)
    notationEntries_addEvent _ _

theorem attributeEntries_run {G : Graph} (es : List (Event × Nat)) (b : Built)
    (hG : b.graph.generalEntities = G.generalEntities) :
    (es.foldl (addAttributes limits) b).graph.attributes.map attributeEntry =
      Table.addAll (b.graph.attributes.map attributeEntry)
        (es.flatMap fun e => (e.1.attributeKeys G limits).map (·, e.2)) := by
  induction es generalizing b with
  | nil => rfl
  | cons e es ih =>
      obtain ⟨_, _, hframe⟩ := exists_attributes_addAttributes limits b e
      rw [List.foldl_cons, ih _ (by rw [hframe]; exact hG), attributeEntries_addAttributes,
        Event.attributeKeys_congr (.of_eq hG), List.flatMap_cons, Table.addAll_append]

theorem attributeEntries_build : (build limits events).graph.attributes.map attributeEntry =
    Table.firsts (entriesOf
      (Event.attributeKeys (build limits events).graph limits) events) := by
  have hnone : (beforeAttributes limits events).graph.attributes = [] := attributes_run _ _
  -- attribute lists come last, so they are read with the entities of the whole graph
  have hrun :=
    attributeEntries_run limits (events.zipIdx 1) _ (generalEntities_build limits events)
  rwa [hnone] at hrun

theorem placedBy_build : (build limits events).graph.PlacedBy limits events where
  elements d hd :=
    (firstAt_of_entries (elementEntries_build limits events) d hd).congr fun e =>
    Event.mem_elementNames_iff
  entities s d hd :=
    (firstAt_of_entries (entityEntries_build limits events s) d hd).congr fun e =>
    Event.mem_entityNames_iff
  notations d hd :=
    (firstAt_of_entries (notationEntries_build limits events) d hd).congr fun e =>
    Event.mem_notationNames_iff
  attributes a ha :=
    (firstAt_of_entries (attributeEntries_build limits events) a ha).congr fun e =>
    Event.mem_attributeKeys_iff
  comments c hc := by
    rw [comments_build] at hc
    obtain ⟨e, he, hcomment⟩ := List.mem_filterMap.1 hc
    exact .of_mem_zipIdx (Event.eq_of_comment? hcomment ▸ he)
  instructions i hi := by
    rw [instructions_build] at hi
    obtain ⟨e, he, hinstruction⟩ := List.mem_filterMap.1 hi
    exact .of_mem_zipIdx (Event.eq_of_instruction? hinstruction ▸ he)

theorem inOrder_build : (build limits events).graph.InOrder where
  elements :=
    pairwise_lt_of_entries (elementEntries_build limits events) Event.length_elementNames_le
  entities s := pairwise_lt_of_entries (entityEntries_build limits events s)
    (Event.length_entityNames_le s)
  notations :=
    pairwise_lt_of_entries (notationEntries_build limits events) Event.length_notationNames_le
  attributes := pairwise_of_entries (attributeEntries_build limits events)
  comments := by
    rw [comments_build]
    refine (pairwise_zipIdx events).filterMap _ fun p q h c hc c' hc' => ?_
    rwa [Event.eq_of_comment? hc, Event.eq_of_comment? hc'] at h
  instructions := by
    rw [instructions_build]
    refine (pairwise_zipIdx events).filterMap _ fun p q h i hi i' hi' => ?_
    rwa [Event.eq_of_instruction? hi, Event.eq_of_instruction? hi'] at h

end Build
end Graph
end Doctype
