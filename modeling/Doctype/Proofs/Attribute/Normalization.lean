import Mathlib.Data.List.Induction
import Doctype.Proofs.Attribute.Cost
import Doctype.Proofs.Attribute.Cycle

/-!
The normal form of a value, where no bound is passed: a value from which no cycle of entities
is reached has the normal form that its reading tells, and every other one is refused
(`normalize_eq_reading`). Bounds that are not passed exist for every value (`exists_limits`).
-/

namespace Doctype.Attribute.Value

variable {g : Graph} {limits : Limits} {raw : Text} {isTokenized : Bool} {v : Normalized}
  {r : Reading}

theorem foldl_remember (names : List Text) : names.foldl remember [] = names.eraseDups := by
  induction names using List.reverseRecOn with
  | nil => rfl
  | append_singleton names n ih =>
      have hmem : n ∈ names.eraseDups ↔ n ∈ names := List.mem_eraseDups
      rw [List.foldl_append, ih, List.foldl_cons, List.foldl_nil,
        List.eraseDups_append, remember]
      by_cases hn : n ∈ names
      · rw [if_pos (List.contains_iff_mem.2 (hmem.2 hn))]
        simp [List.removeAll, hn]
      · rw [if_neg fun h => hn (hmem.1 (List.contains_iff_mem.1 h))]
        simp [List.removeAll, List.eraseDups_cons, hn]

def Reading.normal (r : Reading) (isTokenized : Bool) : Normalized :=
  ⟨if isTokenized then collapse r.value else r.value, r.met.eraseDups, r.missed.eraseDups⟩

theorem exists_reads_of_normalize (h : normalize g limits raw isTokenized = .ok v) :
    ∃ r, Reads g (pieces raw) r ∧ v = r.normal isTokenized := by
  obtain ⟨q, hrun, hv⟩ := Content.bind_eq_ok_iff.1 h
  cases hv
  obtain ⟨r, hr, hadds⟩ := expand_reads hrun
  have hout : q.out.toText = r.value := hadds.out
  have hreferences : q.references = r.met.eraseDups :=
    hadds.references.trans (foldl_remember _)
  have hundeclared : q.undeclared = r.missed.eraseDups :=
    hadds.undeclared.trans (foldl_remember _)
  exact ⟨r, hr, by rw [Reading.normal, hout, hreferences, hundeclared]⟩

/-- A value that is refused although no bound is passed refers to a recursive entity. -/
theorem normalize_eq_error {e : Error} (h : normalize g limits raw isTokenized = .error e) :
    (∃ excess, e = .limitExceeded excess) ∨
      (∃ name active, e = .recursiveEntity name active) ∧ ReachesCycle g raw := by
  rcases Content.bind_eq_error_iff.1 h with h | ⟨q, -, h⟩
  · rcases expand_eq_error h with hexcess | ⟨hrecursive, hcycle | ⟨n, hn, -⟩⟩
    · exact .inl hexcess
    · exact .inr ⟨hrecursive, hcycle⟩
    · exact absurd hn List.not_mem_nil
  · cases h

/-- For every value there are bounds beyond which none is passed. -/
theorem exists_limits (g : Graph) (raw : Text) (isTokenized : Bool) :
    ∃ bound, ∀ limits : Limits, bound ≤ limits.entityDepth → bound ≤ limits.entityExpansions →
      bound ≤ limits.entityExpansionSize →
      ∀ excess, normalize g limits raw isTokenized ≠ .error (.limitExceeded excess) := by
  refine ⟨max g.generalEntities.length (cost g g.generalEntities.length raw),
    fun limits hd he hs => ?_⟩
  exact normalize_ne_limitExceeded ((Nat.le_max_left _ _).trans hd)
    ((Nat.le_max_right _ _).trans he) ((Nat.le_max_right _ _).trans hs) isTokenized

/-- Where no bound is passed, a value is refused just if following references from it reaches a
cycle of entities. Every other value has a normal form, the one that its reading tells. -/
theorem normalize_eq_reading
    (hlimits : ∀ excess, normalize g limits raw isTokenized ≠ .error (.limitExceeded excess)) :
    ((∃ name active, normalize g limits raw isTokenized =
      .error (.recursiveEntity name active)) ↔
        ReachesCycle g raw) ∧
      (¬ReachesCycle g raw → ∃ v, normalize g limits raw isTokenized = .ok v) ∧
      ∀ v, normalize g limits raw isTokenized = .ok v ↔
        ∃ ps r, Segments raw ps ∧ Reads g ps r ∧ v = r.normal isTokenized := by
  cases hrun : normalize g limits raw isTokenized with
  | error e =>
      rcases normalize_eq_error hrun with ⟨excess, rfl⟩ | ⟨⟨name, active, rfl⟩, hcycle⟩
      · exact absurd hrun (hlimits excess)
      · refine ⟨iff_of_true ⟨name, active, rfl⟩ hcycle, fun hnone => absurd hcycle hnone,
          fun v => ?_⟩
        refine iff_of_false nofun ?_
        rintro ⟨ps, r, hps, hr, -⟩
        obtain rfl := segments_iff.1 hps
        exact hr.not_reachesCycle hcycle
  | ok w =>
      obtain ⟨r, hr, rfl⟩ := exists_reads_of_normalize hrun
      refine ⟨iff_of_false nofun hr.not_reachesCycle, fun _ => ⟨_, rfl⟩, fun v => ?_⟩
      constructor
      · intro h
        cases h
        exact ⟨pieces raw, r, segments_pieces raw, hr, rfl⟩
      · rintro ⟨ps, s, hps, hs, rfl⟩
        obtain rfl := segments_iff.1 hps
        rw [hr.unique hs]

/-- Two entities, one within the other, and one that leads back to itself. -/
def nestedEntities : Graph :=
  { Graph.empty with
    generalEntities := [⟨"org", .general, .literal "ACME  Corp", 1⟩,
      ⟨"full", .general, .literal "&org; Ltd", 2⟩,
        ⟨"loop", .general, .literal "x &loop;", 3⟩] }

theorem normalize_eq_reading_nested :
    (∃ ps r, Segments "&full;\t&lt; &nbsp;&org;" ps ∧ Reads nestedEntities ps r ∧
        ⟨"ACME Corp Ltd < &nbsp;ACME Corp", ["full", "org"], ["nbsp"]⟩ = r.normal true) ∧
      ReachesCycle nestedEntities "a &full; &loop;" := by
  have hok : normalize nestedEntities .standard "&full;\t&lt; &nbsp;&org;" true =
      .ok ⟨"ACME Corp Ltd < &nbsp;ACME Corp", ["full", "org"], ["nbsp"]⟩ := by
    decide +kernel
  have herror : normalize nestedEntities .standard "a &full; &loop;" false =
      .error (.recursiveEntity "loop" ["loop"]) := by
    decide +kernel
  constructor
  · have hlimits (excess : Limits.Excess) :
        normalize nestedEntities .standard "&full;\t&lt; &nbsp;&org;" true ≠
        .error (.limitExceeded excess) := by
      rw [hok]
      exact nofun
    exact ((normalize_eq_reading hlimits).2.2 _).1 hok
  · have hlimits (excess : Limits.Excess) :
        normalize nestedEntities .standard "a &full; &loop;" false ≠
        .error (.limitExceeded excess) := by
      rw [herror]
      exact nofun
    exact (normalize_eq_reading hlimits).1.1 ⟨_, _, herror⟩

end Doctype.Attribute.Value
