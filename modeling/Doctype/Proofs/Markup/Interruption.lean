import Doctype.Proofs.Markup.Plan

/-!
Scans that a handler cuts short. A handler that takes the same events as another one up to some
point, and refuses the next one, stops a scan in a state that the other scan passes through:
until then the two are the same, and from there the other scan leads on (`Interrupts.source`).
What a scan leads to is told by a relation between states that every event keeps
(`Interrupts`). So it is for every step, and therefore for every plan.
-/

namespace Doctype.Markup

variable {σ α β : Type}

def endState (x : Scan σ α) (s : State σ) : State σ :=
  match x s with
  | .ok _ t => t
  | .error _ t => t

def Setting.withHandler (c : Setting σ) (h : Handler σ) : Setting σ :=
  { c with handler := h }

/-- How a handler `h` interrupts scans in a setting: where `stops` it refuses what comes, and
elsewhere it does what the handler of the setting does. The relation `leads` is kept by
whatever such a scan does. -/
structure Interrupts (c : Setting σ) (h : Handler σ) (stops : σ → Prop)
    (leads : State σ → State σ → Prop) : Prop where
  accept_eq : ∀ handled e, h.accept handled e = c.handler.accept handled e ∨
    (∃ error, h.accept handled e = .error error) ∧ stops handled
  finish_eq : h.finish = c.handler.finish
  trans : ∀ {s t u}, leads s t → leads t u → leads s u
  still : ∀ {s t : State σ}, t.handled = s.handled → t.entities = s.entities → leads s t
  event : ∀ {s : State σ} {base e handled}, c.handler.accept s.handled e = .ok handled →
    leads s (State.define base e { s with handled })
  finish : ∀ {s : State σ} {handled}, c.handler.finish s.handled = .ok handled →
    leads s { s with handled }

/-- A run of `x` leads on. A run of `x'` is the same, or ends with an error in a state where
the handler `stops` and from which it leads to the end of the run of `x`. -/
structure Interrupted (stops : σ → Prop) (leads : State σ → State σ → Prop) (x' x : Scan σ α) :
    Prop where
  endState : ∀ s, leads s (endState x s)
  cases : ∀ s, x' s = x s ∨ ∃ error t, x' s = .error error t ∧ stops t.handled ∧
    leads t (Markup.endState x s)

theorem Interrupted.endState_cases {stops : σ → Prop} {leads : State σ → State σ → Prop}
    {x' x : Scan σ α} (h : Interrupted stops leads x' x) (s : State σ) :
    Markup.endState x' s = Markup.endState x s ∨
      stops (Markup.endState x' s).handled ∧
        leads (Markup.endState x' s) (Markup.endState x s) := by
  rcases h.cases s with hsame | ⟨error, t, herror, hstops, hleads⟩
  · left
    unfold Markup.endState
    rw [hsame]
  · right
    have hend : Markup.endState x' s = t := by
      unfold Markup.endState
      rw [herror]
    rw [hend]
    exact ⟨hstops, hleads⟩

namespace Interrupts

variable {c : Setting σ} {h : Handler σ} {stops : σ → Prop} {leads : State σ → State σ → Prop}

variable (hc : Interrupts c h stops leads)
include hc

theorem of_still {x' x : Scan σ α} (hsame : x' = x)
    (hx : ∀ s, (endState x s).handled = s.handled ∧ (endState x s).entities = s.entities) :
    Interrupted stops leads x' x :=
  ⟨fun s => hc.still (hx s).1 (hx s).2, fun _ => .inl (by rw [hsame])⟩

theorem pure (a : α) : Interrupted stops leads (pure a) (pure a) :=
  hc.of_still rfl fun _ => ⟨rfl, rfl⟩

theorem throw (error : Error) : Interrupted (α := α) stops leads (throw error) (throw error) :=
  hc.of_still rfl fun _ => ⟨rfl, rfl⟩

theorem bind {x' x : Scan σ α} {f' f : α → Scan σ β} (hx : Interrupted stops leads x' x)
    (hf : ∀ a, Interrupted stops leads (f' a) (f a)) :
    Interrupted stops leads (x' >>= f') (x >>= f) := by
  have hrest (s : State σ) : leads (endState x s) (endState (x >>= f) s) := by
    unfold endState
    rw [bind_apply]
    cases x s with
    | ok a t => exact (hf a).endState t
    | error error t => exact hc.still rfl rfl
  refine ⟨fun s => hc.trans (hx.endState s) (hrest s), fun s => ?_⟩
  rcases hx.cases s with hsame | ⟨error, t, herror, hstops, hleads⟩
  · unfold endState
    rw [bind_apply, bind_apply, hsame]
    cases x s with
    | ok a t => exact (hf a).cases t
    | error error t => exact .inl rfl
  · -- the first part is cut short, and the other run leads on through all that comes behind it
    refine .inr ⟨error, t, ?_, hstops, hc.trans hleads (hrest s)⟩
    rw [bind_apply, herror]

/-! ### Steps -/

theorem check (checked : Except Limits.Excess Unit) :
    Interrupted (σ := σ) stops leads (check checked) (check checked) :=
  hc.of_still rfl fun _ => by cases checked <;> exact ⟨rfl, rfl⟩

theorem leave : Interrupted (σ := σ) stops leads leave leave :=
  hc.of_still rfl fun _ => ⟨rfl, rfl⟩

theorem load (base : Option Location) (id : ExternalId) :
    Interrupted stops leads (load (c.withHandler h) base id) (load c base id) := by
  refine hc.of_still rfl fun s => ?_
  unfold endState
  rw [load_eq]
  cases c.resolver.answer s.asked ⟨base, id⟩ <;> exact ⟨rfl, rfl⟩

theorem enter (fail : Fault → Error) (deeper : Option β) (name : Text) :
    Interrupted stops leads (enter (c.withHandler h) fail deeper name)
      (enter c fail deeper name) := by
  refine hc.of_still rfl fun s => ?_
  unfold endState
  rw [enter_apply]
  by_cases hactive : s.active.contains name = true
  · rw [if_pos hactive]
    exact ⟨rfl, rfl⟩
  · rw [if_neg hactive]
    cases c.limits.checkExpansions (s.expansions + 1) with
    | error excess => exact ⟨rfl, rfl⟩
    | ok u => cases deeper <;> exact ⟨rfl, rfl⟩

/-- A refused event is not remembered, and the other run leads on from where it was refused. -/
theorem report_define (base : Option Location) (e : Event) :
    Interrupted stops leads (do report (c.withHandler h) e; modify (State.define base e))
      (do report c e; modify (State.define base e)) := by
  have hleads (s : State σ) :
      leads s (endState (do report c e; modify (State.define base e)) s) := by
    unfold endState
    rw [bind_apply, report_apply]
    cases haccept : c.handler.accept s.handled e with
    | ok handled => exact hc.event haccept
    | error error => exact hc.still rfl rfl
  refine ⟨hleads, fun s => ?_⟩
  rcases hc.accept_eq s.handled e with hsame | ⟨⟨error, herror⟩, hstops⟩
  · refine .inl ?_
    have haccept : (c.withHandler h).handler.accept s.handled e =
      c.handler.accept s.handled e := hsame
    rw [bind_apply, bind_apply, report_apply, report_apply, haccept]
  · refine .inr ⟨error, s, ?_, hstops, hleads s⟩
    have haccept : (c.withHandler h).handler.accept s.handled e = .error error := herror
    rw [bind_apply, report_apply, haccept]

theorem finishEvents :
    Interrupted stops leads (Source.finish (c.withHandler h)) (Source.finish c) := by
  have hfinish : (c.withHandler h).handler.finish = c.handler.finish := hc.finish_eq
  have hsame : Source.finish (c.withHandler h) = Source.finish c := by
    unfold Source.finish
    rw [hfinish]
  refine ⟨fun s => ?_, fun s => .inl (by rw [hsame])⟩
  unfold endState
  rw [finish_apply]
  cases hend : c.handler.finish s.handled with
  | ok handled => exact hc.finish hend
  | error error => exact hc.still rfl rfl

theorem step (x : Step α) : Interrupted stops leads (x.run (c.withHandler h)) (x.run c) := by
  cases x with
  | checkSource size => exact hc.check _
  | checkExpansion size => exact hc.check _
  | lookup name => exact hc.of_still rfl fun _ => ⟨rfl, rfl⟩
  | enter fault name => exact hc.enter fault (some ()) name
  | enterTooDeep fault name => exact hc.enter fault none name
  | leave => exact hc.leave
  | load base id => exact hc.load base id
  | report base e => exact hc.report_define base e
  | finish => exact hc.finishEvents

/-! ### Plans and sources -/

theorem plan (p : Plan α) : Interrupted stops leads (p.run (c.withHandler h)) (p.run c) := by
  induction p with
  | done a => exact hc.pure a
  | fail error => exact hc.throw error
  | step x next ih => exact hc.bind (hc.step x) ih

theorem source (s : Source) :
    Interrupted stops leads (s.scan (c.withHandler h)) (s.scan c) := by
  have hplan := hc.plan (.ofSource s c.limits.entityDepth)
  rw [Plan.run_ofSource] at hplan
  exact Plan.run_ofSource (c.withHandler h) s ▸ hplan

end Interrupts

end Doctype.Markup
