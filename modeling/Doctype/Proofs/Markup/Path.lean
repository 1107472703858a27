import Doctype.Proofs.Markup.Handling
import Doctype.Proofs.Markup.Interruption
import Doctype.Proofs.Markup.Size

/-!
Paths of a scan. The trace of a run is a path from state to state (`Plan.path_trace`) on which
entities are entered within the bound on expansions and external texts are counted. An entity
that is entered pays for one external text and for as many events as its replacement text has
bytes (`Pays.entered`); what steps cost adds up (`Pays.append`).
-/

namespace Doctype

variable {σ α β : Type}

namespace Markup

/-! ### States -/

/-- The entities that are being expanded differ and are nested at most as deep as the bound
allows, and no known replacement text is larger than an expansion may be. -/
structure State.Bounded (limits : Limits) (s : State σ) : Prop where
  nodup : s.active.Nodup
  depth : s.active.length ≤ limits.entityDepth
  replacements : ∀ name text, (name, .internal text) ∈ s.entities →
    Text.size text ≤ limits.entityExpansionSize

structure State.Fits (limits : Limits) (level : Nat) (s : State σ) :
    Prop extends s.Bounded limits where
  level : s.active.length + level = limits.entityDepth

theorem State.Bounded.congr {limits : Limits} {s t : State σ} (h : s.Bounded limits)
    (hactive : t.active = s.active) (hentities : t.entities = s.entities) : t.Bounded limits :=
  ⟨hactive ▸ h.nodup, hactive ▸ h.depth, hentities ▸ h.replacements⟩

theorem State.Fits.congr {limits : Limits} {level : Nat} {s t : State σ}
    (h : s.Fits limits level) (hactive : t.active = s.active)
    (hentities : t.entities = s.entities) : t.Fits limits level :=
  ⟨h.toBounded.congr hactive hentities, hactive ▸ h.level⟩

theorem State.fits_start (limits : Limits) (handled : σ) :
    (State.start handled).Fits limits limits.entityDepth where
  nodup := List.nodup_nil
  depth := Nat.zero_le _
  replacements _ _ h := by cases h
  level := Nat.zero_add _

theorem State.define_eq (base : Option Location) (e : Event) (s : State σ) :
    s.define base e = { s with entities := (s.define base e).entities } := by
  unfold State.define
  split
  · split <;> rfl
  · rfl

/-- A declaration of a small definition keeps the state bounded. -/
theorem State.Bounded.define {limits : Limits} {s : State σ} (h : s.Bounded limits)
    (base : Option Location) {e : Event}
    (he : e.isDeclaration = true → e.size ≤ limits.entityExpansionSize) :
    (s.define base e).Bounded limits := by
  unfold State.define
  split
  · next name definition =>
    split
    · next r _ hr =>
      refine ⟨h.nodup, h.depth, fun owner text hmem => ?_⟩
      rcases List.mem_append.1 hmem with hmem | hmem
      · exact h.replacements owner text hmem
      · cases List.mem_singleton.1 hmem
        have hsize := Replacement.size_le_of_ofDefinition? hr
        have hevent := he rfl
        simp only [Event.size, Event.texts, List.flatten_cons, List.flatten_nil,
          Text.size_append] at hevent
        omega
    · exact h
  · exact h

theorem State.Fits.define {limits : Limits} {level : Nat} {s : State σ}
    (h : s.Fits limits level) (base : Option Location) {e : Event}
    (he : e.isDeclaration = true → e.size ≤ limits.entityExpansionSize) :
    (s.define base e).Fits limits level where
  toBounded := h.toBounded.define base he
  level := by rw [State.define_eq, h.level]

/-! ### Steps -/

def Step.isEntrance : Step α → Bool
  | enter _ _ => true
  | _ => false

def Step.isLoad : Step α → Bool
  | load _ _ => true
  | _ => false

def Step.event? (x : Step α) : Option Event :=
  x.call?.bind Call.event?

/-- What a step does, the entrance of an entity aside: it counts the external texts that are
asked for, and leaves everything alone if it fails. -/
theorem Step.run_frame (c : Setting σ) (x : Step α) (s : State σ) :
    match x.run c s with
    | .ok _ t =>
      t.loads = s.loads + (if x.isLoad = true then 1 else 0) ∧
        (x.isEntrance = false → t.expansions = s.expansions)
    | .error _ t =>
      t.loads = s.loads + (if x.isLoad = true then 1 else 0) ∧ t.active = s.active ∧
        t.entities = s.entities := by
  cases x with
  | checkSource size =>
      simp only [Step.run]
      cases c.limits.checkDtdSize size
      · exact ⟨rfl, rfl, rfl⟩
      · exact ⟨rfl, fun _ => rfl⟩
  | checkExpansion size =>
      simp only [Step.run]
      cases c.limits.checkExpansionSize size
      · exact ⟨rfl, rfl, rfl⟩
      · exact ⟨rfl, fun _ => rfl⟩
  | lookup name => exact ⟨rfl, fun _ => rfl⟩
  | enter fault name =>
      simp only [Step.run, enter_apply]
      by_cases hactive : s.active.contains name = true
      · rw [if_pos hactive]
        exact ⟨rfl, rfl, rfl⟩
      · rw [if_neg hactive]
        cases c.limits.checkExpansions (s.expansions + 1)
        · exact ⟨rfl, rfl, rfl⟩
        · exact ⟨rfl, fun h => by cases h⟩
  | enterTooDeep fault name =>
      simp only [Step.run, enter_apply]
      by_cases hactive : s.active.contains name = true
      · rw [if_pos hactive]
        exact ⟨rfl, rfl, rfl⟩
      · rw [if_neg hactive]
        cases c.limits.checkExpansions (s.expansions + 1) <;> exact ⟨rfl, rfl, rfl⟩
  | leave => exact ⟨rfl, fun _ => rfl⟩
  | load base id =>
      simp only [Step.run, load_eq]
      have hcount : (s.asked ++ [Request.mk base id]).length = s.asked.length + 1 :=
        List.length_append
      cases c.resolver.answer s.asked ⟨base, id⟩ with
      | error error => exact ⟨hcount, rfl, rfl⟩
      | ok r => exact ⟨hcount, fun _ => rfl⟩
  | report base e =>
      simp only [Step.run, bind_apply, report_apply]
      cases c.handler.accept s.handled e with
      | error error => exact ⟨rfl, rfl, rfl⟩
      | ok handled =>
          change (State.define base e { s with handled }).loads = s.loads ∧
            (_ → (State.define base e { s with handled }).expansions = s.expansions)
          rw [State.define_eq]
          exact ⟨rfl, fun _ => rfl⟩
  | finish =>
      simp only [Step.run, finish_apply]
      cases c.handler.finish s.handled with
      | error error => exact ⟨rfl, rfl, rfl⟩
      | ok handled => exact ⟨rfl, fun _ => rfl⟩

theorem Step.same_of_error {c : Setting σ} {x : Step α} {s t : State σ} {error : Error}
    (h : x.run c s = .error error t) : t.active = s.active ∧ t.entities = s.entities := by
  have hframe := x.run_frame c s
  rw [h] at hframe
  exact hframe.2

/-- An entity is entered only within the bound on expansions, and counts as one. -/
theorem Step.enter_eq_ok {c : Setting σ} {fault : Fault → Error} {name : Text}
    {s t : State σ} {u : Unit} (h : (Step.enter fault name).run c s = .ok u t) :
    name ∉ s.active ∧ s.expansions + 1 ≤ c.limits.entityExpansions ∧
      t = { s with active := s.active ++ [name], expansions := s.expansions + 1 } := by
  simp only [Step.run, enter_apply] at h
  split at h
  · cases h
  · next hactive =>
    cases hcheck : c.limits.checkExpansions (s.expansions + 1) with
    | error excess =>
        rw [hcheck] at h
        cases h
    | ok u =>
        rw [hcheck] at h
        cases h
        exact ⟨by simpa using hactive, Limits.atMost_eq_ok hcheck, rfl⟩

/-! ### Traces -/

namespace Moment

def enters (m : Moment σ) : Bool :=
  m.step.isEntrance && m.succeeds

def loads (m : Moment σ) : Bool :=
  m.step.isLoad

def reports (m : Moment σ) : Bool :=
  m.step.event?.isSome

/-- Moments from a state to a state, one after the other, each of them what its step does. -/
inductive Path (c : Setting σ) : State σ → List (Moment σ) → State σ → Prop
  | nil (s : State σ) : Path c s [] s
  | cons {α : Type} {x : Step α} {answer : α} {s t u : State σ} {ms : List (Moment σ)}
      (h : x.run c s = .ok answer t) (rest : Path c t ms u) :
        Path c s (⟨x, s, t, true⟩ :: ms) u
  | failed {α : Type} {x : Step α} {error : Error} {s t : State σ}
      (h : x.run c s = .error error t) : Path c s [⟨x, s, t, false⟩] t

/-- A path enters as many entities as the bound on expansions allows. -/
theorem Path.entrances_le {c : Setting σ} {s t : State σ} {ms : List (Moment σ)}
    (h : Path c s ms t) (hs : s.expansions ≤ c.limits.entityExpansions) :
    ms.countP enters + s.expansions ≤ c.limits.entityExpansions := by
  induction h with
  | nil s => simpa using hs
  | failed h => simpa [enters] using hs
  | @cons α x answer s t u ms h rest ih =>
      simp only [List.countP_cons, enters, Bool.and_true]
      cases hx : x.isEntrance with
      | false =>
          have hframe := x.run_frame c s
          rw [h] at hframe
          have hsame := hframe.2 hx
          have hrest := ih (hsame ▸ hs)
          simp only [Bool.false_eq_true, if_false]
          omega
      | true =>
          cases x with
          | enter fault name =>
              obtain ⟨-, hbound, ht⟩ := Step.enter_eq_ok h
              have hcount : t.expansions = s.expansions + 1 := by rw [ht]
              have hrest := ih (hcount ▸ hbound)
              simp only [if_true]
              omega
          | _ => cases hx

theorem Path.loads_eq {c : Setting σ} {s t : State σ} {ms : List (Moment σ)}
    (h : Path c s ms t) : t.loads = s.loads + ms.countP loads := by
  induction h with
  | nil s => rfl
  | @failed α x error s t h =>
      have hframe := x.run_frame c s
      rw [h] at hframe
      rw [List.countP_singleton]
      exact hframe.1
  | @cons α x answer s t u ms h rest ih =>
      have hframe := x.run_frame c s
      rw [h] at hframe
      rw [ih, hframe.1, List.countP_cons, Nat.add_assoc]
      exact congrArg (s.loads + ·) (Nat.add_comm ..)

end Moment

/-- The trace of a run is a path to the state in which it ends. -/
theorem Plan.path_trace (c : Setting σ) (p : Plan α) (s : State σ) :
    Moment.Path c s (p.trace c s) (endState (p.run c) s) := by
  induction p generalizing s with
  | done a => exact .nil s
  | fail error => exact .nil s
  | step x next ih =>
      unfold endState trace
      simp only [run, bind_apply]
      cases hrun : x.run c s with
      | error error t => exact .failed hrun
      | ok a t => exact .cons hrun (ih a t)

/-- What the steps of a run cost. The states between them are bounded, and so are the
declarations that are told; an entity that is entered pays for an external text and for the
events of its replacement text, and there are a number of other events and external texts. -/
structure Pays (limits : Limits) (events loads : Nat) (ms : List (Moment σ)) : Prop where
  states : ∀ m ∈ ms, m.before.Bounded limits ∧ m.after.Bounded limits
  sizes : ∀ m ∈ ms, ∀ e ∈ m.step.event?, e.isDeclaration = true →
    e.size ≤ limits.entityExpansionSize
  events : ms.countP Moment.reports ≤ events + ms.countP Moment.enters *
    limits.entityExpansionSize
  loads : ms.countP Moment.loads ≤ loads + ms.countP Moment.enters

namespace Pays

variable {limits : Limits} {events loads events' loads' : Nat} {ms ms' : List (Moment σ)}

theorem nil : Pays limits 0 0 ([] : List (Moment σ)) :=
  ⟨by simp, by simp, by simp, by simp⟩

theorem mono (h : Pays limits events loads ms) (hevents : events ≤ events')
    (hloads : loads ≤ loads') : Pays limits events' loads' ms :=
  ⟨h.states, h.sizes, h.events.trans (by omega), h.loads.trans (by omega)⟩

theorem append (h : Pays limits events loads ms) (h' : Pays limits events' loads' ms') :
    Pays limits (events + events') (loads + loads') (ms ++ ms') where
  states := List.forall_mem_append.2 ⟨h.states, h'.states⟩
  sizes := List.forall_mem_append.2 ⟨h.sizes, h'.sizes⟩
  events := by
    have h₁ := h.events
    have h₂ := h'.events
    simp only [List.countP_append, Nat.add_mul]
    omega
  loads := by
    have h₁ := h.loads
    have h₂ := h'.loads
    simp only [List.countP_append]
    omega

theorem single {m : Moment σ} (hbefore : m.before.Bounded limits)
    (hafter : m.after.Bounded limits)
    (hsizes : ∀ e ∈ m.step.event?, e.isDeclaration = true →
      e.size ≤ limits.entityExpansionSize) :
    Pays limits m.reports.toNat m.loads.toNat [m] where
  states := by simpa using ⟨hbefore, hafter⟩
  sizes := by simpa using hsizes
  events := by
    cases hm : m.reports <;> simp [hm]
  loads := by
    cases hm : m.loads <;> simp [hm]

/-- An entity pays for its text, and for what is done with it. -/
theorem entered {m : Moment σ} (hm : m.enters = true) (hbefore : m.before.Bounded limits)
    (hafter : m.after.Bounded limits) (h : Pays limits limits.entityExpansionSize 1 ms) :
    Pays limits 0 0 (m :: ms) := by
  have hevent : m.step.event? = none ∧ m.loads = false := by
    obtain ⟨x, before, after, succeeds⟩ := m
    cases x with
    | enter fault name => exact ⟨rfl, rfl⟩
    | _ => cases hm
  have hreports : m.reports = false := by simp [Moment.reports, hevent.1]
  refine ⟨List.forall_mem_cons.2 ⟨⟨hbefore, hafter⟩, h.states⟩,
    List.forall_mem_cons.2 ⟨by simp [hevent.1], h.sizes⟩,
    ?_, ?_⟩
  · have hevents := h.events
    simp only [List.countP_cons, hm, hreports, if_true, Bool.false_eq_true, if_false,
      Nat.add_mul]
    omega
  · have hloads := h.loads
    simp only [List.countP_cons, hm, hevent.2, if_true, Bool.false_eq_true, if_false]
    omega

end Pays

end Markup
end Doctype
