import Mathlib.Algebra.Order.BigOperators.Group.List
import Mathlib.Algebra.Order.Ring.Nat
import Doctype.Proofs.Attribute.Counting
import Doctype.Proofs.Graph.Build

/-!
How many entities are expanded while a graph is built. The attribute lists are taken with a
count beside the graph, to which each default value adds what is expanded for it
(`countAttributes`). The bound on expansions holds for each default value by itself, as every
one begins to count anew; for all of them together there is no other bound than the sum
(`Graph.expansions_build`).
-/

namespace Doctype

def Event.defaultValues : Event → List Text
  | attributeList _ body =>
    ((Attribute.Definition.parseAll body).toOption.getD []).filterMap (·.default.value?)
  | _ => []

/-- `d.Refused g limits e`: the default value of a definition has no normal form for the reason
`e`. -/
def Attribute.Definition.Refused (g : Graph) (limits : Limits) (d : Attribute.Definition)
    (e : Error) : Prop :=
  ∃ raw, d.default.value? = some raw ∧
    Attribute.Value.normalize g limits raw d.kind.isTokenized = .error e

variable {g g' : Graph} {limits : Limits}

namespace Attribute

theorem Value.replacement?_congr (h : g.SameDefinitions g') :
    Value.replacement? g = Value.replacement? g' := by
  funext n
  simp only [Value.replacement?, h n]

theorem Value.countedPiece_congr (h : g.SameDefinitions g') (limits : Limits) :
    Value.countedPiece g limits = Value.countedPiece g' limits := by
  have hpiece := Value.expandPiece_congr h limits
  funext deeper p piece
  cases piece <;> simp only [Value.countedPiece, Value.replacement?_congr h, hpiece]

theorem Value.countedExpand_congr (h : g.SameDefinitions g') (limits : Limits) (room : Nat) :
    Value.countedExpand g limits room = Value.countedExpand g' limits room := by
  have hpiece := Value.countedPiece_congr h limits
  induction room with
  | zero => funext t p; simp only [Value.countedExpand, hpiece]
  | succ room ih => funext t p; simp only [Value.countedExpand, hpiece, ih]

theorem Value.expansions_congr (h : g.SameDefinitions g') (limits : Limits) :
    Value.expansions g limits = Value.expansions g' limits := by
  funext raw
  simp only [Value.expansions, Value.countedExpand_congr h]

/-- A definition has a normal form unless its default value is refused. -/
theorem Definition.isSome_normalized?_iff {d : Definition} :
    (d.normalized? g limits).isSome ↔ ∀ e, ¬d.Refused g limits e := by
  have hvalue {raw : Text} (hraw : d.default.value? = some raw) :
      (∀ e, ¬d.Refused g limits e) ↔
      ∃ v, Value.normalize g limits raw d.kind.isTokenized = .ok v := by
    cases hv : Value.normalize g limits raw d.kind.isTokenized with
    | error e => exact iff_of_false (fun h => h e ⟨raw, hraw, hv⟩) (fun ⟨v, h⟩ => by cases h)
    | ok v =>
        refine iff_of_true (fun e he => ?_) ⟨v, rfl⟩
        obtain ⟨raw', hraw', he⟩ := he
        cases hraw.symm.trans hraw'
        cases hv.symm.trans he
  unfold Definition.normalized?
  cases hdefault : d.default with
  | required => simp [Definition.Refused, hdefault, Default.value?]
  | implied => simp [Definition.Refused, hdefault, Default.value?]
  | fixed raw =>
      rw [hvalue (by rw [hdefault]; rfl), Option.isSome_map]
      cases Value.normalize g limits raw d.kind.isTokenized <;> simp [Except.toOption]
  | plain raw =>
      rw [hvalue (by rw [hdefault]; rfl), Option.isSome_map]
      cases Value.normalize g limits raw d.kind.isTokenized <;> simp [Except.toOption]

end Attribute

namespace Graph

/-! ### Counting -/

def countAttributes (limits : Limits) (b : Built × Nat) (e : Event × Nat) : Built × Nat :=
  (addAttributes limits b.1 e,
    b.2 + (e.1.defaultValues.map (Attribute.Value.expansions b.1.graph limits)).sum)

def countedBuild (limits : Limits) (events : List Event) : Built × Nat :=
  (events.zipIdx 1).foldl (countAttributes limits) (beforeAttributes limits events, 0)

/-- How many entities are expanded for default values while a graph is built. -/
def expansionsIn (limits : Limits) (events : List Event) : Nat :=
  (countedBuild limits events).2

theorem fst_foldl_countAttributes (limits : Limits) (es : List (Event × Nat))
    (b : Built × Nat) :
    (es.foldl (countAttributes limits) b).1 = es.foldl (addAttributes limits) b.1 := by
  induction es generalizing b with
  | nil => rfl
  | cons e es ih => rw [List.foldl_cons, List.foldl_cons, ih, countAttributes]

theorem snd_foldl_countAttributes (limits : Limits) {G : Graph} (es : List (Event × Nat))
    (b : Built × Nat) (hG : b.1.graph.generalEntities = G.generalEntities) :
    (es.foldl (countAttributes limits) b).2 =
      b.2 + ((es.flatMap fun e => e.1.defaultValues).map
        (Attribute.Value.expansions G limits)).sum := by
  induction es generalizing b with
  | nil => rfl
  | cons e es ih =>
      obtain ⟨_, _, hframe⟩ := exists_attributes_addAttributes limits b.1 e
      have hstep : (countAttributes limits b e).1.graph.generalEntities =
          G.generalEntities := by
        rw [countAttributes, hframe]
        exact hG
      rw [List.foldl_cons, ih _ hstep, countAttributes,
        Attribute.Value.expansions_congr (.of_eq hG), List.flatMap_cons,
        List.map_append, List.sum_append, Nat.add_assoc]

/-! ### What becomes of the default values -/

/-- A definition whose default value is refused is reported. -/
theorem mem_findings_of_refused {events : List Event} {element : Text}
    {d : Attribute.Definition} {e : Error}
    (hd : d ∈ events.flatMap (·.attributeDefinitions element))
    (he : d.Refused (build limits events).graph limits e) :
    .defaultValue d.name element e ∈ (build limits events).findings := by
  obtain ⟨event, hevent, hwritten⟩ := List.mem_flatMap.1 hd
  obtain ⟨raw, hraw, he⟩ := he
  have hfinding : .defaultValue d.name element e ∈ d.findings (build limits events).graph
      limits element := by
    simp [Attribute.Definition.findings, hraw, he]
  have hlist : .defaultValue d.name element e ∈ event.attributeFindings
      (build limits events).graph limits := by
    cases event with
    | attributeList owner body =>
        simp only [Event.attributeDefinitions] at hwritten
        split at hwritten
        · next howner =>
          subst howner
          simp only [Event.attributeFindings]
          cases hparse : Attribute.Definition.parseAll body with
          | error _ =>
              rw [hparse] at hwritten
              cases hwritten
          | ok ds =>
              rw [hparse] at hwritten
              exact List.mem_flatMap.2 ⟨d, hwritten, hfinding⟩
        · cases hwritten
    | _ => cases hwritten
  rw [findings_build]
  exact List.mem_append_left _
    (List.mem_append_right _ (List.mem_flatMap.2 ⟨event, hevent, hlist⟩))

/-- An attribute is declared unless every definition of it is refused. -/
theorem isSome_attribute?_build_iff {events : List Event} {element n : Text} :
    ((build limits events).graph.attribute? element n).isSome ↔
      ∃ d ∈ events.flatMap (·.attributeDefinitions element), d.name = n ∧
        ∀ e, ¬d.Refused (build limits events).graph limits e := by
  have hbuild := congrArg Option.isSome (attribute_build limits events element n)
  rw [Option.isSome_map] at hbuild
  rw [hbuild, List.getLast?_isSome]
  constructor
  · intro h
    obtain ⟨v, hv⟩ := List.exists_mem_of_ne_nil _ h
    obtain ⟨d, hd, hv⟩ := List.mem_filterMap.1 hv
    obtain ⟨hd, hname⟩ := List.mem_filter.1 hd
    exact ⟨d, hd, of_decide_eq_true hname,
      Attribute.Definition.isSome_normalized?_iff.1 (Option.isSome_of_mem hv)⟩
  · rintro ⟨d, hd, hname, hnone⟩
    obtain ⟨v, hv⟩ :=
      Option.isSome_iff_exists.1 (Attribute.Definition.isSome_normalized?_iff.2 hnone)
    exact List.ne_nil_of_mem
      (List.mem_filterMap.2 ⟨d, List.mem_filter.2 ⟨hd, decide_eq_true hname⟩, hv⟩)

/-! ### The bound -/

/-- The bound on expansions is one for each default value. What is expanded for all of them
while a graph is built is the sum over the default values of what is expanded for each in the
finished graph, where each is metered by itself; so it is within the bound times their number.
A definition that is refused, for the bound or otherwise, is reported, and an attribute is left
out where all its definitions are refused. -/
theorem expansions_build (limits : Limits) (events : List Event) :
    let g := (build limits events).graph
    let values := events.flatMap (·.defaultValues)
    (countedBuild limits events).1.graph = g ∧
      expansionsIn limits events = (values.map (Attribute.Value.expansions g limits)).sum ∧
      (∀ raw ∈ values, Attribute.Value.Metered g limits raw) ∧
      expansionsIn limits events ≤ values.length * limits.entityExpansions ∧
      (∀ element, ∀ d ∈ events.flatMap (·.attributeDefinitions element), ∀ e,
      d.Refused g limits e →
        .defaultValue d.name element e ∈ (build limits events).findings) ∧
      ∀ element n, (g.attribute? element n).isSome ↔
        ∃ d ∈ events.flatMap (·.attributeDefinitions element), d.name = n ∧
        ∀ e, ¬d.Refused g limits e := by
  intro g values
  have hsum : expansionsIn limits events =
      (values.map (Attribute.Value.expansions g limits)).sum := by
    have hrun :=
      snd_foldl_countAttributes limits (events.zipIdx 1) (beforeAttributes limits events, 0)
      (generalEntities_build limits events)
    rwa [flatMap_zipIdx, Nat.zero_add] at hrun
  have hmetered (raw : Text) : Attribute.Value.Metered g limits raw :=
    Attribute.Value.metered g limits raw
  have hgraph : (countedBuild limits events).1.graph = g := by
    rw [countedBuild, fst_foldl_countAttributes]
    rfl
  refine ⟨hgraph, hsum, fun raw _ => hmetered raw, ?_, fun element d hd e he =>
    mem_findings_of_refused hd he, fun element n => isSome_attribute?_build_iff⟩
  calc
    expansionsIn limits events = (values.map (Attribute.Value.expansions g limits)).sum := hsum
    _ ≤ (values.map (Attribute.Value.expansions g limits)).length • limits.entityExpansions :=
      List.sum_le_card_nsmul _ _ (List.forall_mem_map.2 fun raw _ => (hmetered raw).le)
    _ = values.length * limits.entityExpansions := by rw [List.length_map, Nat.nsmul_eq_mul]

/-- Two default values that take one expansion each, where one is allowed: both are
declared. -/
theorem expansionsIn_pastBound :
    let limits : Limits := { Limits.standard with entityExpansions := 1 }
    let events : List Event :=
      [.entity .general "e" "\"v\"", .attributeList "el" "a CDATA \"&e;\" b CDATA \"&e;\""]
    ¬expansionsIn limits events ≤ limits.entityExpansions ∧
      (build limits events).findings = [] ∧
      (build limits events).graph.attributes.map Attribute.default =
        [.plain "v", .plain "v"] := by
  decide +kernel

end Graph
end Doctype
