import Doctype.Proofs.Reachability.Search

/-!
What the analysis comes to. The loop over the roots queues those that are declared and finds
fault with the others (`Graph.pushRoots_eq`); with an empty queue the analysis fails, and
otherwise the walk over the elements and the closure of the entities find exactly what is
needed (`Graph.reachable_closure`). What was found wrong is kept either way.
-/

namespace Doctype.Graph

variable {g : Graph} {roots : List Text} {k : Key}

/-- What is wrong with some roots, each as often as it was asked for. -/
def undeclaredRoots (g : Graph) (roots : List Text) : List Finding :=
  (roots.filter fun r => (g.element? r).isNone).map .danglingRoot

def rootQueue (g : Graph) (roots : List Text) : Queue :=
  roots.foldl g.pushChild .empty

theorem pushRoot_eq (q : Queue) (r : Text) (findings : List Finding) :
    g.pushRoot q r findings = .ok (g.pushChild q r) (findings ++ g.undeclaredRoots [r]) := by
  unfold pushRoot pushChild undeclaredRoots
  cases hr : g.element? r with
  | none =>
      rw [List.filter_cons_of_pos (by rw [hr]; rfl)]
      rfl
  | some d =>
      rw [List.filter_cons_of_neg (by rw [hr]; exact nofun), List.filter_nil, List.map_nil,
        List.append_nil]
      rfl

theorem pushRoots_eq (q : Queue) (findings : List Finding) :
    (roots.foldlM g.pushRoot q : Stage Queue) findings =
      .ok (roots.foldl g.pushChild q) (findings ++ g.undeclaredRoots roots) := by
  induction roots generalizing q findings with
  | nil => simp [undeclaredRoots]; rfl
  | cons r roots ih =>
      have hsplit : g.undeclaredRoots (r :: roots) =
          g.undeclaredRoots [r] ++ g.undeclaredRoots roots := by
        rw [undeclaredRoots, ← List.singleton_append, List.filter_append, List.map_append]
        rfl
      change EStateM.bind (g.pushRoot q r) (fun q => roots.foldlM g.pushRoot q) findings = _
      unfold EStateM.bind
      rw [pushRoot_eq]
      exact (ih _ _).trans (by rw [hsplit, List.append_assoc, List.foldl_cons])

theorem mem_waiting_rootQueue_iff {n : Text} :
    n ∈ (g.rootQueue roots).waiting ↔ n ∈ roots ∧ .element n ∈ g.keys := by
  rw [rootQueue, mem_waiting_pushChildren_iff]
  simp [Queue.empty]

theorem rootQueue_isEmpty_iff :
    (g.rootQueue roots).waiting.isEmpty = true ↔ ∀ r ∈ roots, g.element? r = none := by
  rw [List.isEmpty_iff, List.eq_nil_iff_forall_not_mem]
  simp [mem_waiting_rootQueue_iff, Option.eq_none_iff_forall_ne_some]

/-- A search begins with the declared roots in the queue. -/
theorem Walking.begin : Walking g roots ⟨.new roots, []⟩ (g.rootQueue roots) where
  searching :=
    { reached := .new
      sound := fun k hk hkey => by
        obtain ⟨n, hn, rfl⟩ : ∃ n ∈ (g.rootQueue roots).waiting, .element n = k := by
          simpa [Gathered.pending, ReachableSet.new] using hk
        obtain ⟨d, hd⟩ := element_mem_keys_iff.1 hkey
        exact .root (mem_waiting_rootQueue_iff.1 hn).1 hd
      root_found := fun r hr hkey => by
        have hwaiting := mem_waiting_rootQueue_iff.2 ⟨hr, hkey⟩
        simpa [Gathered.pending, ReachableSet.new] using hwaiting
      next_found := by simp [ReachableSet.new] }
  visited_found n hn hkey := by
    have hroot : n ∈ roots := by
      simpa [rootQueue, mem_visited_pushChildren_iff, Queue.empty, hkey] using hn
    exact .inr (mem_waiting_rootQueue_iff.2 ⟨hroot, hkey⟩)

/-! ### The analysis -/

/-- What the two searches find. -/
def closure (g : Graph) (roots : List Text) : ReachableSet :=
  let gathered := g.walk ⟨.new roots, []⟩ (g.rootQueue roots)
  g.closeEntities gathered.set [] gathered.entities

theorem searching_closure (hg : g.Inserted) (roots : List Text) :
    Searching g roots (g.closure roots) [] := by
  have hbegin : Walking g roots ⟨.new roots, []⟩ (g.rootQueue roots) := .begin
  obtain ⟨visited, hwalk⟩ := hbegin.walk hg
  exact hwalk.closing.closeEntities hg

theorem outcome_reach (roots : List Text) (findings : List Finding) :
    (g.reach roots).outcome findings =
      (if roots.isEmpty then .error (.reachability .noRoots)
        else if (g.rootQueue roots).waiting.isEmpty then
          .error (.reachability (.rootsUndeclared roots))
        else .ok (g.closure roots),
      findings ++ g.undeclaredRoots roots) := by
  have hroots := @pushRoots_eq g roots .empty findings
  cases roots with
  | nil => exact congrArg _ (List.append_nil _).symm
  | cons r roots =>
      have hreach : g.reach (r :: roots) findings =
          if (g.rootQueue (r :: roots)).waiting.isEmpty then
            .error (.reachability (.rootsUndeclared (r :: roots)))
              (findings ++ g.undeclaredRoots (r :: roots))
          else .ok (g.closure (r :: roots)) (findings ++ g.undeclaredRoots (r :: roots)) := by
        change EStateM.bind ((r :: roots).foldlM g.pushRoot .empty) _ findings = _
        unfold EStateM.bind
        rw [hroots, ← rootQueue]
        cases hempty : (g.rootQueue (r :: roots)).waiting.isEmpty <;>
          simp only [hempty] <;> rfl
      rw [Stage.outcome, hreach]
      cases (g.rootQueue (r :: roots)).waiting.isEmpty <;> rfl

theorem reachable_eq : g.reachable roots =
    if roots.isEmpty then .error (.reachability .noRoots)
    else if (g.rootQueue roots).waiting.isEmpty then
      .error (.reachability (.rootsUndeclared roots))
    else .ok (g.closure roots) := by
  rw [reachable, outcome_reach]

theorem eq_closure_of_reachable {s : ReachableSet} (h : g.reachable roots = .ok s) :
    s = g.closure roots := by
  rw [reachable_eq] at h
  split_ifs at h
  exact (Except.ok.inj h).symm

/-- The analysis fails exactly when there are no roots or none of them is declared. Otherwise
it finds what is needed for the roots, each key once. Whether it fails or not, to what was
found before it adds one finding for every root that is not declared, as often as it was asked
for. -/
theorem reachable_closure (h : g.Inserted) (roots : List Text) (findings : List Finding) :
    let outcome := (g.reach roots).outcome findings
    ((∃ fault, outcome.1 = .error (.reachability fault)) ↔
      roots = [] ∨ ∀ r ∈ roots, g.element? r = none) ∧
    (¬ (roots = [] ∨ ∀ r ∈ roots, g.element? r = none) →
      ∃ s, outcome.1 = .ok s ∧ s.roots = roots ∧ s.keys.Nodup ∧
        ∀ k, k ∈ s.keys ↔ g.Needs roots k) ∧
    ∃ added, outcome.2 = findings ++ added ∧ added.map Finding.diagnostic =
      (roots.filter fun r => (g.element? r).isNone).map fun r =>
        ⟨.danglingRoot, "root element '" ++ r ++ "' is not declared", some r⟩ := by
  intro outcome
  have houtcome : outcome = _ := g.outcome_reach roots findings
  rw [houtcome, ← rootQueue_isEmpty_iff, ← List.isEmpty_iff]
  refine ⟨?_, fun hroots => ?_, _, rfl, by rw [undeclaredRoots, List.map_map]; rfl⟩
  · split
    · next hnil => simp [hnil]
    · split
      · next hempty => simp [hempty]
      · next hnil hempty => simp [hnil, hempty]
  · obtain ⟨hnil, hempty⟩ := not_or.1 hroots
    have hsearching := searching_closure h roots
    exact ⟨g.closure roots, by simp [hnil, hempty], hsearching.reached.roots_eq,
      hsearching.reached.nodup, fun k => hsearching.mem_iff h⟩

/-- The theorem applies to a figure that names an unparsed entity, and to a root that is not
declared. -/
theorem reachable_closure_figure :
    let g :=
      ((((Graph.empty.insertElement ⟨['f'], .children (.name ['f'] none), 1⟩).2.insertAttribute
        ⟨['f'], ['s'], .entity, .plain ['l'], [], 2⟩).2.insertEntity
        ⟨['l'], .general, .external .none (some ['g']), 3⟩).2.insertNotation
        ⟨['g'], .none, 4⟩).2
    g.Inserted ∧
      (∃ s, ((g.reach [['x'], ['f']]).outcome []).1 = .ok s ∧ s.roots = [['x'], ['f']] ∧
        s.keys.Nodup ∧ .notationType ['g'] ∈ s.keys) ∧
      ((g.reach [['x'], ['f']]).outcome []).2.map Finding.diagnostic =
        [⟨.danglingRoot, "root element 'x' is not declared", some ['x']⟩] ∧
      (∃ fault, ((g.reach [['x']]).outcome []).1 = .error (.reachability fault)) ∧
      ((g.reach [['x']]).outcome []).2.map Finding.diagnostic =
        [⟨.danglingRoot, "root element 'x' is not declared", some ['x']⟩] := by
  intro g
  have hinserted : g.Inserted :=
    .insertNotation _ (.insertEntity _ (.insertAttribute _ (.insertElement _ .empty)))
  have hf : g.Needs [['x'], ['f']] (.element ['f']) := .root (by simp) rfl
  have ha : g.attribute? ['f'] ['s'] = some ⟨['f'], ['s'], .entity, .plain ['l'], [], 2⟩ := rfl
  have hclass : ∀ c ∈ ['l'], isWhiteSpace c = false := by
    intro c hc
    rw [List.mem_singleton.1 hc]
    decide
  have hrun : Text.IsRun isWhiteSpace ['l'] ['l'] :=
    ⟨by simp, hclass, [], [], rfl, by simp, by simp⟩
  have hl : g.Needs [['x'], ['f']] (.entity .general ['l']) :=
    .namedEntity (.attributeOf hf ha) ha (.inl rfl) rfl hrun rfl
  obtain ⟨-, hok, added, hfound, hadded⟩ := reachable_closure hinserted [['x'], ['f']] []
  obtain ⟨hfails, -, added', hfound', hadded'⟩ := reachable_closure hinserted [['x']] []
  have hdeclared : ¬ ([['x'], ['f']] = [] ∨ ∀ r ∈ [['x'], ['f']], g.element? r = none) := by
    rintro (h | h)
    · cases h
    · cases h ['f'] (by simp)
  obtain ⟨s, hs, hroots, hnodup, hkeys⟩ := hok hdeclared
  refine ⟨hinserted,
    ⟨s, hs, hroots, hnodup, (hkeys _).2 (.unparsedNotation hl rfl rfl rfl)⟩, ?_,
    hfails.2 (.inr (by simp; rfl)), ?_⟩
  · rw [hfound, List.nil_append, hadded]
    decide
  · rw [hfound', List.nil_append, hadded']
    decide

end Doctype.Graph
