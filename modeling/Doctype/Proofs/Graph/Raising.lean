import Doctype.Proofs.Attribute.Raising
import Doctype.Proofs.Graph.Build

/-!
Graphs that are built under larger bounds. What an event declares and what is wrong with it are
the same, unless a smaller bound is what was wrong with it; so a build that found fault with
nothing for a bound stays as it is when the bounds are raised (`Graph.build_raised`).
-/

namespace Doctype

/-- Whether a finding is about a bound that was passed: the nesting of a content model, or what
the expansion of a default value may take. -/
def Finding.IsExcess : Finding → Prop
  | contentModel e => e.failure.IsTooDeep
  | defaultValue _ _ e => e.IsExcess
  | _ => False

variable {g : Graph} {limits limits' : Limits}

theorem Element.declare_raised (h : limits ≤ limits') {name raw : Text}
    (hfindings : ∀ f ∈ (Event.element name raw).findings limits, ¬f.IsExcess) (order : Nat) :
    Element.declare limits' name raw order = Element.declare limits name raw order := by
  obtain ⟨hdepth, -⟩ := h
  have hparse : Content.Spec.parse limits'.contentModelDepth raw =
      Content.Spec.parse limits.contentModelDepth raw := by
    refine (Content.Spec.parse_raised hdepth raw).eq fun failure hfailure => ?_
    exact hfindings (.contentModel ⟨name, raw, failure⟩) (by simp [Event.findings, hfailure])
  simp only [Element.declare, Content.Spec.parseFor, hparse]

theorem Attribute.declare_raised (h : limits ≤ limits') {element : Text}
    {d : Attribute.Definition} (hfindings : ∀ f ∈ d.findings g limits element, ¬f.IsExcess)
    (order : Nat) :
    Attribute.declare g limits' element order d =
      Attribute.declare g limits element order d := by
  unfold Attribute.declare
  cases hdefault : d.default.value? with
  | none => rfl
  | some raw =>
      have hnormalize : Attribute.Value.normalize g limits' raw d.kind.isTokenized =
          Attribute.Value.normalize g limits raw d.kind.isTokenized := by
        refine (Attribute.Value.normalize_raised h g raw _).eq fun e he => ?_
        exact hfindings (.defaultValue d.name element e)
          (by simp [Attribute.Definition.findings, hdefault, he])
      simp only [hnormalize]

namespace Graph

theorem addEvent_raised (h : limits ≤ limits') {e : Event}
    (hfindings : ∀ f ∈ e.findings limits, ¬f.IsExcess) (b : Built) (order : Nat) :
    addEvent limits' b (e, order) = addEvent limits b (e, order) := by
  cases e with
  | element name raw => simp only [addEvent, Element.declare_raised h hfindings]
  | _ => rfl

theorem addAttributes_raised (h : limits ≤ limits') {b : Built} {e : Event}
    (hfindings : ∀ f ∈ e.attributeFindings b.graph limits, ¬f.IsExcess) (order : Nat) :
    addAttributes limits' b (e, order) = addAttributes limits b (e, order) := by
  cases e with
  | attributeList owner body =>
      simp only [addAttributes]
      cases hparse : Attribute.Definition.parseAll body with
      | error e => rfl
      | ok ds =>
          have hdeclared : ds.map (Attribute.declare b.graph limits' owner order) =
              ds.map (Attribute.declare b.graph limits owner order) := by
            refine List.map_congr_left fun d hd =>
              Attribute.declare_raised h (fun f hf => ?_) order
            refine hfindings f ?_
            simp only [Event.attributeFindings, hparse]
            exact List.mem_flatMap.2 ⟨d, hd, hf⟩
          simp only [hdeclared]
  | _ => rfl

/-- A run over events other than attribute lists, by induction on the events. -/
theorem foldl_addEvent_raised (h : limits ≤ limits') {events : List Event}
    (hfindings : ∀ f ∈ events.flatMap (·.findings limits), ¬f.IsExcess) (i : Nat) (b : Built) :
    (events.zipIdx i).foldl (addEvent limits') b =
      (events.zipIdx i).foldl (addEvent limits) b := by
  induction events generalizing i b with
  | nil => rfl
  | cons e events ih =>
      rw [List.flatMap_cons, List.forall_mem_append] at hfindings
      rw [List.zipIdx_cons, List.foldl_cons, List.foldl_cons, addEvent_raised h hfindings.1]
      exact ih hfindings.2 (i + 1) _

theorem foldl_addAttributes_raised (h : limits ≤ limits') {G : Graph} {events : List Event}
    (hfindings : ∀ f ∈ events.flatMap (·.attributeFindings G limits), ¬f.IsExcess) (i : Nat)
    (b : Built) (hG : b.graph.generalEntities = G.generalEntities) :
    (events.zipIdx i).foldl (addAttributes limits') b =
      (events.zipIdx i).foldl (addAttributes limits) b := by
  induction events generalizing i b with
  | nil => rfl
  | cons e events ih =>
      rw [List.flatMap_cons,
        List.forall_mem_append, ← Event.attributeFindings_congr (.of_eq hG)] at hfindings
      obtain ⟨_, _, hframe⟩ := exists_attributes_addAttributes limits b (e, i)
      rw [List.zipIdx_cons, List.foldl_cons, List.foldl_cons,
        addAttributes_raised h hfindings.1]
      exact ih hfindings.2 (i + 1) _ (by rw [hframe]; exact hG)

/-- Raising the bounds changes nothing that is built of events which were found fault with for
no bound: the graph is the same, and so are the findings. A value that has a normal form keeps
it, and one that is refused for a recursive entity is refused for the same one. -/
theorem build_raised (h : limits ≤ limits') :
    (∀ events, (∀ f ∈ (build limits events).findings, ¬f.IsExcess) →
      build limits' events = build limits events) ∧
      ∀ g raw isTokenized,
        (∀ v, Attribute.Value.normalize g limits raw isTokenized = .ok v →
          Attribute.Value.normalize g limits' raw isTokenized = .ok v) ∧
        ∀ name active, Attribute.Value.normalize g limits raw isTokenized =
          .error (.recursiveEntity name active) →
          Attribute.Value.normalize g limits' raw isTokenized =
            .error (.recursiveEntity name active) := by
  constructor
  · intro events hfindings
    rw [findings_build, List.forall_mem_append, List.forall_mem_append] at hfindings
    obtain ⟨⟨hevents, hlists⟩, -⟩ := hfindings
    have hbefore : beforeAttributes limits' events = beforeAttributes limits events :=
      foldl_addEvent_raised h hevents 1 _
    have hrun := foldl_addAttributes_raised h hlists 1 _ (generalEntities_build limits events)
    unfold build
    dsimp only
    rw [← beforeAttributes, ← beforeAttributes, hbefore, hrun]
  · intro g raw isTokenized
    have hraised := Attribute.Value.normalize_raised h g raw isTokenized
    refine ⟨fun v hv => ?_, fun name active hrecursive => ?_⟩
    · rw [hraised.eq (fun e he => ?_), hv]
      rw [hv] at he
      cases he
    · rw [hraised.eq (fun e he => ?_), hrecursive]
      rw [hrecursive] at he
      cases he
      rintro ⟨excess, hexcess⟩
      cases hexcess

/-- Bounds that the events reach, and larger ones: two nested groups, two nested entities with
eight bytes, and an entity that leads back to itself. -/
theorem build_raised_reached :
    let limits : Limits := ⟨2, 2, 8, 2, 0⟩
    let events : List Event :=
      [.element "p" "((a|b)*,c?)", .entity .general "org" "'ACME &co;'",
        .entity .general "co" "'Ltd'",
        .entity .general "loop" "'&loop;'",
        .attributeList "p" "t CDATA '&org;' u CDATA '&loop;'"]
    let recursive : Error := .recursiveEntity "loop" ["loop"]
    limits ≤ .standard ∧ (build limits events).findings = [.defaultValue "u" "p" recursive] ∧
      build .standard events = build limits events ∧
      Attribute.Value.normalize (build limits events).graph .standard "&loop;" false =
        .error recursive := by
  intro limits events recursive
  have hle : limits ≤ .standard := by
    refine ⟨?_, ?_, ?_, ?_, ?_⟩ <;> decide
  have hfindings : (build limits events).findings = [.defaultValue "u" "p" recursive] := by
    decide +kernel
  have hnone : ∀ f ∈ (build limits events).findings, ¬f.IsExcess := by
    rw [hfindings]
    intro f hf
    obtain rfl := List.mem_singleton.1 hf
    rintro ⟨excess, hexcess⟩
    simp only [recursive, reduceCtorEq] at hexcess
  have hloop : Attribute.Value.normalize (build limits events).graph limits "&loop;" false =
      .error recursive := by
    decide +kernel
  exact ⟨hle, hfindings, (build_raised hle).1 events hnone,
    ((build_raised hle).2 _ _ _).2 _ _ hloop⟩

end Graph
end Doctype
