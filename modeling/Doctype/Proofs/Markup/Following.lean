import Doctype.Proofs.Markup.Congruence
import Doctype.Proofs.Markup.Expansion
import Doctype.Proofs.Markup.Path

/-!
Scans that go on elsewhere. A scan that succeeds also does so from a state in which fewer
entities are active and more has been expanded, as long as there is room for its own
expansions, and it does the same there (`Follows`). Nor does it matter to what succeeds how
many levels there are beyond those that are needed, or how faults would be told
(`follows_scanItems`).
-/

namespace Doctype.Markup

variable {σ α β : Type} {c : Setting σ} {k k' : Nat} {l l' : List Request} {s s' t u : State σ}

/-! ### States -/

/-- From `s` to `t` there are `k` expansions, within their bound, and the requests `l`, and the
same entities are active. -/
structure State.Advances (c : Setting σ) (k : Nat) (l : List Request) (s t : State σ) :
    Prop where
  active : t.active = s.active
  expansions : t.expansions = s.expansions + k
  asked : t.asked = s.asked ++ l
  bounded : k = 0 ∨ t.expansions ≤ c.limits.entityExpansions

/-- In `s'` the same is declared and handled as in `s`, no other entities are active, there is
room for `k` expansions, and the resolver will answer in the same way. -/
structure State.Allows (c : Setting σ) (k : Nat) (s s' : State σ) : Prop where
  handled : s'.handled = s.handled
  entities : s'.entities = s.entities
  active : s'.active ⊆ s.active
  room : k = 0 ∨ s'.expansions + k ≤ c.limits.entityExpansions
  answers : s'.asked = s.asked ∨ c.resolver.IsConstant

/-- What a scan comes to from `s'` that comes to `t` with `k` expansions and the requests
`l`. -/
def State.onward (k : Nat) (l : List Request) (t s' : State σ) : State σ :=
  { t with active := s'.active, expansions := s'.expansions + k, asked := s'.asked ++ l }

namespace State

theorem Advances.refl (s : State σ) : s.Advances c 0 [] s :=
  ⟨rfl, rfl, (List.append_nil _).symm, .inl rfl⟩

theorem Advances.trans (h : s.Advances c k l t) (h' : t.Advances c k' l' u) :
    s.Advances c (k + k') (l ++ l') u where
  active := h'.active.trans h.active
  expansions := by rw [h'.expansions, h.expansions, Nat.add_assoc]
  asked := by rw [h'.asked, h.asked, List.append_assoc]
  bounded := by
    have := h.bounded
    have := h'.bounded
    have := h'.expansions
    omega

theorem entities_define (base : Option Location) (e : Event) (h : s'.entities = s.entities) :
    (s'.define base e).entities = (s.define base e).entities := by
  unfold State.define
  rw [h]
  split
  · split
    · rfl
    · exact h
  · exact h

theorem onward_zero (h : s.Allows c k s') : onward 0 [] s s' = s' := by
  obtain ⟨hhandled, hentities, -, -, -⟩ := h
  cases s'
  cases hhandled
  cases hentities
  simp [onward]

theorem Allows.onward (h : s.Allows c (k + k') s') (hst : s.Advances c k l t) :
    t.Allows c k' (onward k l t s') where
  handled := rfl
  entities := rfl
  active := hst.active ▸ h.active
  room := by
    have := h.room
    change k' = 0 ∨ s'.expansions + k + k' ≤ c.limits.entityExpansions
    omega
  answers := h.answers.imp_left fun heq => by rw [State.onward, hst.asked, heq]

theorem Allows.mono (h : s.Allows c (k + k') s') : s.Allows c k s' where
  handled := h.handled
  entities := h.entities
  active := h.active
  room := by
    have := h.room
    omega
  answers := h.answers

theorem onward_onward (k k' : Nat) (l l' : List Request) (t u s' : State σ) :
    onward k' l' u (onward k l t s') = onward (k + k') (l ++ l') u s' := by
  simp only [onward, Nat.add_assoc, List.append_assoc]

theorem Advances.allows (h : s.Advances c k l t) : s.Allows c k s where
  handled := rfl
  entities := rfl
  active := List.Subset.refl _
  room := by
    have := h.bounded
    have := h.expansions
    omega
  answers := .inl rfl

theorem Advances.onward_self (h : s.Advances c k l t) : onward k l t s = t := by
  obtain ⟨hactive, hexpansions, hasked, -⟩ := h
  cases t
  cases hactive
  cases hexpansions
  cases hasked
  rfl

end State

open State (Advances Allows onward)

/-! ### Scans -/

/-- Where the first scan succeeds, the second one does the same from every state that allows
it. -/
def Follows (c : Setting σ) (x x' : Scan σ α) : Prop :=
  ∀ s a t, x s = .ok a t → ∃ k l, s.Advances c k l t ∧
    ∀ s', s.Allows c k s' → x' s' = .ok a (onward k l t s')

namespace Follows

variable {x x' : Scan σ α}

theorem eq_ok (h : Follows c x x') {a : α} (hx : x s = .ok a t) : x' s = .ok a t := by
  obtain ⟨k, l, hadvances, hruns⟩ := h s a t hx
  rw [hruns s hadvances.allows, hadvances.onward_self]

theorem pure (a : α) : Follows c (pure a : Scan σ α) (pure a) := by
  rintro s a t ⟨⟩
  refine ⟨0, [], .refl s, fun s' hs' => ?_⟩
  rw [State.onward_zero hs']
  rfl

theorem throw (error : Error) (x' : Scan σ α) : Follows c (throw error) x' := by
  rintro s a t ⟨⟩

theorem bind {f f' : α → Scan σ β} (hx : Follows c x x') (hf : ∀ a, Follows c (f a) (f' a)) :
    Follows c (x >>= f) (x' >>= f') := by
  intro s b u hrun
  obtain ⟨a, t, hfirst, hsecond⟩ := bind_eq_ok hrun
  obtain ⟨k, l, hst, hruns⟩ := hx s a t hfirst
  obtain ⟨k', l', htu, hruns'⟩ := hf a t b u hsecond
  refine ⟨k + k', l ++ l', hst.trans htu, fun s' hs' => ?_⟩
  rw [bind_apply, hruns s' hs'.mono]
  dsimp only
  rw [hruns' _ (hs'.onward hst), State.onward_onward]

/-- A plain step does not depend on what is active, and expands nothing. -/
theorem step (c : Setting σ) {x : Step α} (hx : x.isPlain = true) :
    Follows c (x.run c) (x.run c) := by
  intro s a t hrun
  cases x with
  | checkExpansion size =>
      simp only [Step.run] at hrun ⊢
      cases hcheck : c.limits.checkExpansionSize size with
      | error excess =>
          rw [hcheck] at hrun
          cases hrun
      | ok u =>
          rw [hcheck] at hrun
          cases hrun
          exact pure _ s () s rfl
  | lookup name =>
      cases hrun
      refine ⟨0, [], .refl s, fun s' hs' => ?_⟩
      rw [State.onward_zero hs', ← hs'.entities]
      rfl
  | load base id =>
      simp only [Step.run, load_eq] at hrun ⊢
      cases hanswer : c.resolver.answer s.asked ⟨base, id⟩ with
      | error error =>
          rw [hanswer] at hrun
          cases hrun
      | ok r =>
          rw [hanswer] at hrun
          cases hrun
          refine ⟨0, [⟨base, id⟩], ⟨rfl, rfl, rfl, .inl rfl⟩, fun s' hs' => ?_⟩
          have hsame : c.resolver.answer s'.asked ⟨base, id⟩ = .ok a := by
            rcases hs'.answers with heq | hconstant
            · rw [heq, hanswer]
            · rw [hconstant, ← hconstant s.asked, hanswer]
          have hstate := State.onward_zero hs'
          simp only [onward, Nat.add_zero, List.append_nil] at hstate ⊢
          simp only [hsame]
          rw [← hstate]
  | report base e =>
      simp only [Step.run, bind_apply, report_apply] at hrun ⊢
      cases haccept : c.handler.accept s.handled e with
      | error error =>
          rw [haccept] at hrun
          cases hrun
      | ok handled =>
          rw [haccept] at hrun
          cases hrun
          refine ⟨0, [], ?_, fun s' hs' => ?_⟩
          · rw [State.define_eq]
            exact ⟨rfl, rfl, (List.append_nil _).symm, .inl rfl⟩
          · rw [hs'.handled, haccept]
            change EStateM.Result.ok () (State.define base e { s' with handled }) = _
            have hentities : (State.define base e { s' with handled }).entities =
                (State.define base e { s with handled }).entities :=
                  State.entities_define base e hs'.entities
            rw [State.define_eq, hentities, State.define_eq base e { s with handled }]
            simp [onward]
  | checkSource size => cases hx
  | enter fault name => cases hx
  | enterTooDeep fault name => cases hx
  | leave => cases hx
  | finish => cases hx

/-- What is done inside of an entity, with the entity entered before and left behind it, is one
expansion more. -/
theorem within (c : Setting σ) {fault fault' : Fault → Error} (name : Text)
    {inside inside' : Plan α} (h : Follows c (inside.run c) (inside'.run c)) :
    Follows c ((Plan.within fault name (some inside)).run c)
      ((Plan.within fault' name (some inside')).run c) := by
  have hwithin (fault : Fault → Error) (inside : Plan α) :
      (Plan.within fault name (some inside)).run c =
      (do (Step.enter fault name).run c; let a ← inside.run c; leave; return a) := by
    simp [Plan.within, Step.run]
  simp only [hwithin]
  intro s a t hrun
  obtain ⟨_, s₁, henter, hrun⟩ := bind_eq_ok hrun
  obtain ⟨hname, hcount, rfl⟩ := Step.enter_eq_ok henter
  obtain ⟨_, t₁, hinside, hleave⟩ := bind_eq_ok hrun
  cases hleave
  obtain ⟨k, l, hadvances, hruns⟩ := h _ a t₁ hinside
  obtain ⟨hactive, hexpansions, hasked, hbounded⟩ := hadvances
  dsimp only at hexpansions hasked
  refine ⟨k + 1, l, ⟨?_, ?_, hasked, .inr ?_⟩, fun s' hs' => ?_⟩
  · change t₁.active.dropLast = s.active
    rw [hactive, List.dropLast_concat]
  · change t₁.expansions = s.expansions + (k + 1)
    omega
  · change t₁.expansions ≤ c.limits.entityExpansions
    omega
  · have hroom := hs'.room
    have hfree : name ∉ s'.active := fun hmem => hname (hs'.active hmem)
    have hallows : State.Allows c k { s with active := s.active ++ [name], expansions :=
      s.expansions + 1 }
        { s' with active := s'.active ++ [name], expansions := s'.expansions + 1 } := by
      refine ⟨hs'.handled, hs'.entities, ?_, .inr ?_, hs'.answers⟩
      · exact List.append_subset.2
          ⟨fun n hn => List.mem_append_left _ (hs'.active hn), List.subset_append_right _ _⟩
      · dsimp only
        omega
    rw [bind_apply, Step.run, enter_of_room fault' () hfree (by omega)]
    dsimp only
    rw [bind_apply, hruns _ hallows]
    change EStateM.Result.ok a _ = EStateM.Result.ok a _
    simp only [onward, List.dropLast_concat, EStateM.Result.ok.injEq, true_and]
    congr 1
    omega

end Follows

/-- What succeeds does so wherever there is room for it, with more levels, too, and however
faults are told. -/
theorem congruence_follows (c : Setting σ) :
    Plan.Congruence (fun _ p p' => Follows c (p.run c) (p'.run c)) (fun _ _ => True)
      (fun site site' => site'.location = site.location) where
  done a := .pure a
  fail f _ := .throw _ _
  bind hp hf := by
    simp only [Plan.run_bind]
    exact hp.bind hf
  take hx := by
    simp only [Plan.run_take]
    exact .step c hx
  within {α fault fault' inside inside'} name _ h := by
    cases inside with
    | none =>
        intro s a t hrun
        obtain ⟨answer, -⟩ := bind_eq_ok hrun
        exact answer.elim
    | some inside =>
        obtain ⟨inside', rfl, hinside⟩ := h inside rfl
        exact .within c name hinside
  fault _ _ := trivial
  location h := h
  ofEntity _ _ h := h
  ofResource _ := rfl

/-! ### Parts of scans -/

section Parts

variable {site site' : Site} {level level' : Nat}

def scanBelow (c : Setting σ) : Nat → Option (Site → Text → Scan σ Unit)
  | 0 => none
  | level + 1 => some fun site t => discard (scan c level .textEnd site t)

theorem scan_eq_scanItems (level : Nat) (stop : Stop) (site : Site) (t : Text) :
    scan c level stop site t = scanItems c level (scanBelow c level) stop site 0 t := by
  cases level <;> rfl

theorem runDeeper_scanBelow (level : Nat) :
    Plan.runDeeper c (Plan.scanBelow level) = scanBelow c level := by
  cases level with
  | zero => rfl
  | succ level =>
      refine congrArg some (funext fun site => funext fun t => ?_)
      dsimp only
      rw [Plan.run_discard, Plan.run_scan]

theorem follows_sectionKeyword (fail fail' : Fault → Error) (hlevel : level ≤ level')
    (keyword : SectionKeyword) :
    Follows c (sectionKeyword c fail level keyword)
      (sectionKeyword c fail' level' keyword) := by
  simp only [← Plan.run_sectionKeyword]
  exact (congruence_follows c).sectionKeyword trivial hlevel keyword

theorem follows_scanItem (fail fail' : Fault → Error) (hsite : site'.location = site.location)
    (hlevel : level ≤ level') (item : Item) :
    Follows c (scanItem c fail site level (scanBelow c level) item)
      (scanItem c fail' site' level' (scanBelow c level') item) := by
  simp only [← runDeeper_scanBelow, ← Plan.run_scanItem]
  exact (congruence_follows c).scanItem trivial hsite hlevel
    ((congruence_follows c).scansDeeper hlevel) item

theorem follows_scanItems (hsite : site'.location = site.location) (hlevel : level ≤ level')
    (stop : Stop) (opened : Nat) (t : Text) :
    Follows c (scanItems c level (scanBelow c level) stop site opened t)
      (scanItems c level' (scanBelow c level') stop site' opened t) := by
  simp only [← runDeeper_scanBelow, ← Plan.run_scanItems]
  exact (congruence_follows c).scanItems hsite hlevel
    ((congruence_follows c).scansDeeper hlevel) stop opened t

end Parts

end Doctype.Markup
