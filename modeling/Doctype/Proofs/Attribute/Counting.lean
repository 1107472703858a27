import Doctype.Proofs.Attribute.Nesting

/-!
How many entities are expanded for a value, also for one that is refused. The expansion is run
with a count beside its result, which grows where a replacement text begins to be read
(`countedExpand`). Without the count it is the expansion (`result_countedExpand`). The count
never passes the bound on expansions; in a run that comes to an end it is what the run itself
has counted, and a run that fails for this bound has counted as far as the bound
(`counts_countedExpand`).
-/

namespace Doctype

/-- A run that may fail, and a count that is known also where it fails. -/
structure Counted (α : Type) where
  result : Except Error α
  count : Nat

namespace Counted

variable {α β : Type}

def of (result : Except Error α) : Counted α :=
  ⟨result, 0⟩

def tick (x : Counted α) : Counted α :=
  { x with count := x.count + 1 }

instance : Monad Counted where
  pure a := of (.ok a)
  bind x f :=
    match x.result with
    | .ok a => ⟨(f a).result, x.count + (f a).count⟩
    | .error e => ⟨.error e, x.count⟩

@[simp] theorem result_of (r : Except Error α) : (of r).result = r := rfl

@[simp] theorem count_of (r : Except Error α) : (of r).count = 0 := rfl

@[simp] theorem result_tick (x : Counted α) : x.tick.result = x.result := rfl

@[simp] theorem count_tick (x : Counted α) : x.tick.count = x.count + 1 := rfl

@[simp] theorem result_pure (a : α) : (pure a : Counted α).result = .ok a := rfl

@[simp] theorem result_bind (x : Counted α) (f : α → Counted β) :
    (x >>= f).result = x.result >>= fun a => (f a).result := by
  rcases x with ⟨_ | _, _⟩ <;> rfl

theorem count_bind_of_ok {x : Counted α} {a : α} (hx : x.result = .ok a) (f : α → Counted β) :
    (x >>= f).count = x.count + (f a).count := by
  obtain ⟨_, _⟩ := x
  cases hx
  rfl

theorem count_bind_of_error {x : Counted α} {e : Error} (hx : x.result = .error e)
    (f : α → Counted β) : (x >>= f).count = x.count := by
  obtain ⟨_, _⟩ := x
  cases hx
  rfl

theorem result_foldlM {γ : Type} (step : β → γ → Counted β) (step' : β → γ → Except Error β)
    (hstep : ∀ b c, (step b c).result = step' b c) (cs : List γ) (b : β) :
    (cs.foldlM step b).result = cs.foldlM step' b := by
  induction cs generalizing b with
  | nil => rfl
  | cons c cs ih =>
      rw [List.foldlM_cons, List.foldlM_cons, result_bind, hstep]
      exact bind_congr ih

end Counted

namespace Attribute.Value

variable {g : Graph} {limits : Limits} {t u n : Text} {p q : Progress} {piece : Piece}
  {deeper : Option (Text → Progress → Counted Progress)}

/-! ### Counting runs -/

def countedEntity (limits : Limits) (deeper : Option (Text → Progress → Counted Progress))
    (name replacement : Text) (p : Progress) : Counted Progress := do
  let (expand, inner) ← Counted.of (enter limits deeper name p)
  let after ← (expand replacement inner).tick
  let () ← Counted.of ((limits.checkExpansionSize after.out.bytes).mapError .limitExceeded)
  return { after with active := p.active }

def countedPiece (g : Graph) (limits : Limits)
    (deeper : Option (Text → Progress → Counted Progress)) (p : Progress) :
    Piece → Counted Progress
  | .reference name =>
    match replacement? g name with
    | some u => countedEntity limits deeper name u (p.meet name)
    | none => .of (expandPiece g limits none p (.reference name))
  | piece => .of (expandPiece g limits none p piece)

def countedExpand (g : Graph) (limits : Limits) : Nat → Text → Progress → Counted Progress
  | 0, t, p => (pieces t).foldlM (countedPiece g limits none) p
  | room + 1, t, p =>
    (pieces t).foldlM (countedPiece g limits (some (countedExpand g limits room))) p

def expansions (g : Graph) (limits : Limits) (raw : Text) : Nat :=
  (countedExpand g limits limits.entityDepth raw .start).count

/-! ### Without the count -/

def uncounted (expand : Text → Progress → Counted Progress) (t : Text) (p : Progress) :
    Except Error Progress :=
  (expand t p).result

theorem replacement?_eq_some_iff : replacement? g n = some u ↔ Replacement g n u := by
  unfold replacement? Replacement
  cases g.entity? .general n with
  | none => simp
  | some e => cases hdefinition : e.definition <;> simp [hdefinition]

theorem expandPiece_of_not_replacement
    (hnone : ∀ n u, piece = .reference n → ¬Replacement g n u)
    (deeper deeper' : Option (Text → Progress → Except Error Progress)) :
    expandPiece g limits deeper p piece = expandPiece g limits deeper' p piece := by
  cases piece with
  | reference n =>
      unfold expandPiece
      cases hentity : g.entity? .general n with
      | none => simp only [hentity]
      | some e =>
          cases hdefinition : e.definition with
          | external id notationName => simp only [hentity, hdefinition]
          | literal u => exact absurd ⟨e, hentity, hdefinition⟩ (hnone n u rfl)
  | _ => rfl

/-- The two ways in which a piece is expanded with a count. -/
theorem countedPiece_cases (g : Graph) (limits : Limits)
    (deeper : Option (Text → Progress → Counted Progress)) (p : Progress) (piece : Piece) :
    (∃ n u, piece = .reference n ∧ Replacement g n u ∧
      countedPiece g limits deeper p piece = countedEntity limits deeper n u (p.meet n)) ∨
    (∀ n u, piece = .reference n → ¬Replacement g n u) ∧
      countedPiece g limits deeper p piece = .of (expandPiece g limits none p piece) := by
  cases piece with
  | reference n =>
      cases hu : replacement? g n with
      | some u =>
          exact .inl ⟨n, u, rfl, replacement?_eq_some_iff.1 hu,
            by simp only [countedPiece, hu]⟩
      | none =>
          refine .inr ⟨fun n' u hn hreplacement => ?_, by simp only [countedPiece, hu]⟩
          cases hn
          rw [replacement?_eq_some_iff.2 hreplacement] at hu
          cases hu
  | literal c => exact .inr ⟨(fun _ _ h => by cases h), rfl⟩
  | denoted c => exact .inr ⟨(fun _ _ h => by cases h), rfl⟩
  | verbatim t => exact .inr ⟨(fun _ _ h => by cases h), rfl⟩

theorem result_countedEntity (replacement : Text) :
    (countedEntity limits deeper n replacement p).result =
      expandEntity limits (deeper.map uncounted) n replacement p := by
  unfold countedEntity expandEntity enter
  simp only [Counted.result_bind, Counted.result_of, Counted.result_tick, Counted.result_pure]
  by_cases hactive : p.active.contains n = true
  · simp only [hactive, if_true]
    rfl
  · simp only [hactive, Bool.false_eq_true, if_false]
    cases limits.checkExpansions (p.expansions + 1) with
    | error excess => rfl
    | ok _ => cases deeper <;> rfl

theorem result_countedPiece (p : Progress) (piece : Piece) :
    (countedPiece g limits deeper p piece).result =
      expandPiece g limits (deeper.map uncounted) p piece := by
  rcases countedPiece_cases g limits deeper p piece with ⟨n, u, rfl, hu, heq⟩ | ⟨hnone, heq⟩
  · rw [heq, result_countedEntity, expandPiece_of_replacement hu]
  · rw [heq, Counted.result_of]
    exact expandPiece_of_not_replacement hnone _ _

/-- Without the count it is the expansion, by induction on how deep entities may be nested. -/
theorem result_countedExpand (g : Graph) (limits : Limits) (room : Nat) :
    uncounted (countedExpand g limits room) = expand g limits room := by
  induction room with
  | zero =>
      funext t p
      exact Counted.result_foldlM _ _ result_countedPiece (pieces t) p
  | succ room ih =>
      funext t p
      have hstep (p : Progress) (piece : Piece) :
          (countedPiece g limits (some (countedExpand g limits room)) p piece).result =
            expandPiece g limits (some (expand g limits room)) p piece := by
        rw [result_countedPiece, Option.map_some, ih]
      exact Counted.result_foldlM _ _ hstep (pieces t) p

/-! ### The count and the bound -/

/-- `Counts limits p x`: the run `x` from `p` counts no further than the bound on expansions,
unless it begins beyond it. Where it ends well, the value under expansion was counted alike;
where it fails for that bound, one more expansion was asked for. -/
structure Counts (limits : Limits) (p : Progress) (x : Counted Progress) : Prop where
  le : p.expansions + x.count ≤ max p.expansions limits.entityExpansions
  ok {q : Progress} : x.result = .ok q → q.expansions = p.expansions + x.count
  excess {count bound : Nat} : x.result = .error (.limitExceeded (.expansions count bound)) →
    count = p.expansions + x.count + 1 ∧ limits.entityExpansions < count

theorem Counts.bind {x : Counted Progress} {f : Progress → Counted Progress}
    (hx : Counts limits p x) (hf : ∀ q, x.result = .ok q → Counts limits q (f q)) :
    Counts limits p (x >>= f) := by
  cases hresult : x.result with
  | error e =>
      have hbind : (x >>= f).result = .error e := by
        rw [Counted.result_bind, hresult]
        rfl
      refine ⟨?_, fun h => ?_, fun h => ?_⟩
      · rw [Counted.count_bind_of_error hresult]
        exact hx.le
      · rw [hbind] at h
        cases h
      · rw [Counted.count_bind_of_error hresult]
        exact hx.excess (hresult.trans (hbind.symm.trans h))
  | ok q =>
      have hbind : (x >>= f).result = (f q).result := by
        rw [Counted.result_bind, hresult]
        rfl
      have hle := hx.le
      have hq := hx.ok hresult
      have hrest := (hf q hresult).le
      refine ⟨?_, fun h => ?_, fun h => ?_⟩
      · rw [Counted.count_bind_of_ok hresult]
        omega
      · have hok := (hf q hresult).ok (hbind.symm.trans h)
        rw [Counted.count_bind_of_ok hresult]
        omega
      · obtain ⟨hcount, hpast⟩ := (hf q hresult).excess (hbind.symm.trans h)
        rw [Counted.count_bind_of_ok hresult]
        exact ⟨by omega, hpast⟩

theorem Counts.foldlM {step : Progress → Piece → Counted Progress}
    (hstep : ∀ p piece, Counts limits p (step p piece)) (ps : List Piece) (p : Progress) :
    Counts limits p (ps.foldlM step p) := by
  induction ps generalizing p with
  | nil =>
      refine ⟨Nat.le_max_left _ _, fun h => ?_, fun h => by cases h⟩
      cases h
      rfl
  | cons piece ps ih =>
      rw [List.foldlM_cons]
      exact (hstep p piece).bind fun q _ => ih q

theorem enter_eq_excess {β : Type} {entered : Option β} {count bound : Nat}
    (h : enter limits entered n p = .error (.limitExceeded (.expansions count bound))) :
    count = p.expansions + 1 ∧ limits.entityExpansions < count := by
  unfold enter at h
  split at h
  · cases h
  · split at h
    · next hcheck =>
      cases h
      obtain ⟨hpast, hexcess⟩ := Limits.atMost_eq_error hcheck
      cases hexcess
      exact ⟨rfl, hpast⟩
    · cases h
    · cases h

/-- An entity that is entered is counted with those that are expanded for its replacement
text. -/
theorem countedEntity_of_enter {expand : Text → Progress → Counted Progress} {inner : Progress}
    (h : enter limits deeper n p = .ok (expand, inner)) :
    (countedEntity limits deeper n u p).count = (expand u inner).count + 1 ∧
      (countedEntity limits deeper n u p).result = (do
        let after ← (expand u inner).result
        (limits.checkExpansionSize after.out.bytes).mapError .limitExceeded
        return { after with active := p.active }) := by
  have hcheck (after : Progress) :
      (Counted.of ((limits.checkExpansionSize after.out.bytes).mapError .limitExceeded) >>=
      fun () => pure { after with active := p.active } : Counted Progress).count = 0 := by
    cases (limits.checkExpansionSize after.out.bytes).mapError Error.limitExceeded <;> rfl
  constructor
  · rw [countedEntity, Counted.count_bind_of_ok h, Counted.count_of, Nat.zero_add]
    cases hresult : (expand u inner).result with
    | error e => exact Counted.count_bind_of_error (x := (expand u inner).tick) hresult _
    | ok after =>
        refine (Counted.count_bind_of_ok (x := (expand u inner).tick) hresult _).trans ?_
        rw [hcheck, Nat.add_zero, Counted.count_tick]
  · simp only [countedEntity, Counted.result_bind, Counted.result_of, Counted.result_tick,
      Counted.result_pure, h]
    rfl

theorem counts_countedEntity
    (hdeeper : ∀ expand, deeper = some expand → ∀ u p, Counts limits p (expand u p)) :
    Counts limits p (countedEntity limits deeper n u p) := by
  cases henter : enter limits deeper n p with
  | error e =>
      have hresult : (countedEntity limits deeper n u p).result = .error e := by
        rw [countedEntity, Counted.result_bind, Counted.result_of, henter]
        rfl
      have hcount : (countedEntity limits deeper n u p).count = 0 :=
        Counted.count_bind_of_error henter _
      refine ⟨?_, fun h => ?_, fun h => ?_⟩
      · rw [hcount]
        exact Nat.le_max_left _ _
      · rw [hresult] at h
        cases h
      · rw [hresult] at h
        cases h
        rw [hcount]
        exact enter_eq_excess henter
  | ok entered =>
      obtain ⟨expand, inner⟩ := entered
      obtain ⟨hcount, hresult⟩ := countedEntity_of_enter (u := u) henter
      obtain ⟨-, hroom, hexpand, rfl⟩ := enter_eq_ok henter
      have hinner := hdeeper expand hexpand u (p.descend n)
      have hbegin : (p.descend n).expansions = p.expansions + 1 := rfl
      have hle := hinner.le
      refine ⟨by omega, fun h => ?_, fun h => ?_⟩
      · obtain ⟨after, hafter, h⟩ := Content.bind_eq_ok_iff.1 (hresult.symm.trans h)
        obtain ⟨_, -, h⟩ := Content.bind_eq_ok_iff.1 h
        cases h
        have hok := hinner.ok hafter
        change after.expansions = _
        omega
      · rcases Content.bind_eq_error_iff.1 (hresult.symm.trans h) with h | ⟨after, -, h⟩
        · obtain ⟨hexcess, hpast⟩ := hinner.excess h
          exact ⟨by omega, hpast⟩
        · rcases Content.bind_eq_error_iff.1 h with h | ⟨_, -, h⟩
          · -- what fails behind the replacement text is the check of the size
            cases hsize : limits.checkExpansionSize after.out.bytes with
            | ok _ =>
                rw [hsize] at h
                cases h
            | error excess =>
                obtain ⟨-, rfl⟩ := Limits.atMost_eq_error hsize
                rw [hsize] at h
                cases h
          · cases h

theorem counts_countedPiece
    (hdeeper : ∀ expand, deeper = some expand → ∀ u p, Counts limits p (expand u p))
    (p : Progress) (piece : Piece) :
    Counts limits p (countedPiece g limits deeper p piece) := by
  rcases countedPiece_cases g limits deeper p piece with ⟨n, u, rfl, -, heq⟩ | ⟨hnone, heq⟩
  · obtain ⟨hle, hok, hexcess⟩ :=
      counts_countedEntity (p := p.meet n) (n := n) (u := u) hdeeper
    rw [heq]
    exact ⟨hle, hok, hexcess⟩
  · rw [heq]
    refine ⟨Nat.le_max_left _ _, fun h => (out_of_expandPiece hnone h).2, fun h => ?_⟩
    obtain ⟨n, u, rfl, hu, -⟩ := expandPiece_eq_error h
    exact absurd hu (hnone n u rfl)

/-- What is counted in an expansion, by induction on how deep entities may be nested. -/
theorem counts_countedExpand (g : Graph) (limits : Limits) (room : Nat) (t : Text)
    (p : Progress) : Counts limits p (countedExpand g limits room t p) := by
  induction room generalizing t p with
  | zero => exact .foldlM (counts_countedPiece fun _ h => by cases h) _ _
  | succ room ih =>
      refine .foldlM (counts_countedPiece fun expand h => ?_) _ _
      cases h
      exact ih

/-! ### Values -/

/-- How a value uses the bound on expansions: it takes no more of them, also if it is refused.
For a normal form the entities are counted that are replaced in the tree of the value; a value
that is refused for the bound has used it up. -/
structure Metered (g : Graph) (limits : Limits) (raw : Text) : Prop where
  le : expansions g limits raw ≤ limits.entityExpansions
  normalized {isTokenized : Bool} {v : Normalized} :
    normalize g limits raw isTokenized = .ok v →
    ∃ x, Expands g (pieces raw) x ∧ expansions g limits raw = x.count
  refused {isTokenized : Bool} {count bound : Nat} :
    normalize g limits raw isTokenized = .error (.limitExceeded (.expansions count bound)) →
      count = limits.entityExpansions + 1 ∧ expansions g limits raw = limits.entityExpansions

theorem metered (g : Graph) (limits : Limits) (raw : Text) : Metered g limits raw := by
  have hresult : (countedExpand g limits limits.entityDepth raw .start).result =
      expand g limits limits.entityDepth raw .start :=
    congrFun (congrFun (result_countedExpand g limits limits.entityDepth) raw) .start
  have hcounts := counts_countedExpand g limits limits.entityDepth raw .start
  have hle : expansions g limits raw ≤ limits.entityExpansions := by
    have hle : 0 + expansions g limits raw ≤ max 0 limits.entityExpansions := hcounts.le
    omega
  refine ⟨hle, fun h => ?_, fun h => ?_⟩
  · obtain ⟨x, q, hx, -, hrun, hperforms⟩ := exists_expands_of_normalize h
    have hcount : 0 + expansions g limits raw = 0 + x.count :=
      (hcounts.ok (hresult.trans hrun)).symm.trans hperforms.expansions
    exact ⟨x, hx, by omega⟩
  · rcases Content.bind_eq_error_iff.1 h with h | ⟨p, -, h⟩
    · obtain ⟨hcount, hpast⟩ := hcounts.excess (hresult.trans h)
      change _ = 0 + expansions g limits raw + 1 at hcount
      exact ⟨by omega, by omega⟩
    · cases h

end Attribute.Value
end Doctype
