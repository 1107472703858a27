import Mathlib.Data.Set.List
import Doctype.Proofs.Markup.Deepening

/-!
What a handler is told, and what comes of it. A source tells every handler the same things in
the same order, up to the first one that the handler refuses: the run is told by the calls that
a handler gets which takes everything, and by the answers to them (`Plan.heed_calls`). These
are the events, and then their end, if the run comes to it (`Source.calls_recording`).
-/

namespace Doctype

variable {σ τ α β : Type}

namespace Markup.Call

def ofEvents (events : List Event) (isFinished : Bool) : List Call :=
  events.map .event ++ if isFinished then [.finish] else []

def event? : Call → Option Event
  | event e => some e
  | finish => none

@[simp] theorem filterMap_event?_ofEvents (events : List Event) (isFinished : Bool) :
    (ofEvents events isFinished).filterMap event? = events := by
  have hevents : event? ∘ event = some := rfl
  cases isFinished <;> simp [ofEvents, event?, hevents]

end Markup.Call

namespace Handler

open Markup

def answer (h : Handler σ) (handled : σ) : Call → Except Error σ
  | .event e => h.accept handled e
  | .finish => h.finish handled

/-- Makes calls one after the other, up to the first one that the handler refuses: the calls
that are made, the state of the handler then, and the error; it is `result` if none is
refused. -/
def heed (h : Handler σ) (result : Except Error α) (handled : σ) :
    List Call → List Call × σ × Except Error α
  | [] => ([], handled, result)
  | call :: calls =>
    match h.answer handled call with
    | .ok handled =>
      let (made, outcome) := h.heed result handled calls
      (call :: made, outcome)
    | .error error => ([call], handled, .error error)

end Handler

namespace Markup

def State.withHandled (s : State σ) (handled : τ) : State τ :=
  { s with handled }

@[simp] theorem handled_withHandled (s : State σ) (handled : τ) :
    (s.withHandled handled).handled = handled := rfl

def ending : EStateM.Result Error (State σ) α → σ × Except Error α
  | .ok a t => (t.handled, .ok a)
  | .error error t => (t.handled, .error error)

theorem withHandled_define (base : Option Location) (e : Event) (s : State σ) (handled : τ) :
    (s.define base e).withHandled handled = (s.withHandled handled).define base e := by
  cases e with
  | entity scope name definition =>
      cases scope with
      | general => rfl
      | parameter =>
          simp only [State.define, State.withHandled]
          cases s.entities.lookup name <;>
            cases Replacement.ofDefinition? base definition <;> rfl
  | _ => rfl

section Steps

variable (resolver : Resolver) (limits : Limits)

/-- A step that tells the handler nothing does the same with every handler. -/
theorem Step.run_withHandled {x : Step α} (hx : x.call? = none) (h : Handler σ)
    (h' : Handler τ) (s : State τ) (handled : σ) :
    x.run ⟨h, resolver, limits⟩ (s.withHandled handled) =
      match x.run ⟨h', resolver, limits⟩ s with
      | .ok a t => .ok a (t.withHandled handled)
      | .error error t => .error error (t.withHandled handled) := by
  cases x with
  | checkSource size =>
      simp only [Step.run]
      cases limits.checkDtdSize size <;> rfl
  | checkExpansion size =>
      simp only [Step.run]
      cases limits.checkExpansionSize size <;> rfl
  | lookup name => rfl
  | enter fault name =>
      simp only [Step.run, enter_apply, State.withHandled]
      by_cases hactive : s.active.contains name = true
      · simp only [hactive, if_true]
      · simp only [hactive, Bool.false_eq_true, if_false]
        cases limits.checkExpansions (s.expansions + 1) <;> rfl
  | enterTooDeep fault name =>
      simp only [Step.run, enter_apply, State.withHandled]
      by_cases hactive : s.active.contains name = true
      · simp only [hactive, if_true]
      · simp only [hactive, Bool.false_eq_true, if_false]
        cases limits.checkExpansions (s.expansions + 1) <;> rfl
  | leave => rfl
  | load base id =>
      simp only [Step.run, load_eq, State.withHandled]
      cases resolver.answer s.asked ⟨base, id⟩ <;> rfl
  | report base e => cases hx
  | finish => cases hx

/-- A step that tells the handler something succeeds if the handler takes it, and else ends
with its error. -/
theorem Step.exists_run_withHandled {x : Step α} {call : Call} (hx : x.call? = some call)
    (s : State Recording) :
    ∃ a t, x.run ⟨Recording.handler, resolver, limits⟩ s = .ok a t ∧
      ∀ {σ : Type} (h : Handler σ) (handled : σ),
        x.run ⟨h, resolver, limits⟩ (s.withHandled handled) =
        match h.answer handled call with
        | .ok handled => .ok a (t.withHandled handled)
        | .error error => .error error (s.withHandled handled) := by
  cases x with
  | report base e =>
      cases hx
      refine ⟨(), _, rfl, fun h handled => ?_⟩
      simp only [Step.run, bind_apply, report_apply, handled_withHandled, Handler.answer,
        withHandled_define]
      cases h.accept handled e <;> rfl
  | finish =>
      cases hx
      refine ⟨(), _, rfl, fun h handled => ?_⟩
      simp only [Step.run, finish_apply, handled_withHandled, Handler.answer]
      cases h.finish handled <;> rfl
  | _ => cases hx

/-- A run with any handler makes the calls of a run with one that takes everything, up to the
first one that is refused. -/
theorem Plan.heed_calls (p : Plan α) (h : Handler σ) (s : State Recording) (handled : σ) :
    (p.calls ⟨h, resolver, limits⟩ (s.withHandled handled),
        ending (p.run ⟨h, resolver, limits⟩ (s.withHandled handled))) =
      h.heed (ending (p.run ⟨Recording.handler, resolver, limits⟩ s)).2 handled
        (p.calls ⟨Recording.handler, resolver, limits⟩ s) := by
  induction p generalizing s handled with
  | done a => rfl
  | fail error => rfl
  | step x next ih =>
      cases hcall : x.call? with
      | none =>
          have hstep := x.run_withHandled resolver limits hcall h Recording.handler s handled
          simp only [calls, trace, run, bind_apply, hstep]
          cases hrun : x.run ⟨Recording.handler, resolver, limits⟩ s with
          | ok answer t =>
              simp only [List.filterMap_cons, hcall]
              exact ih answer t handled
          | error error t => simp [hcall, Handler.heed, ending, State.withHandled]
      | some call =>
          obtain ⟨answer, t, hrun, hstep⟩ := x.exists_run_withHandled resolver limits hcall s
          simp only [calls, trace, run, bind_apply, hstep, hrun, List.filterMap_cons, hcall,
            Handler.heed]
          cases hanswer : h.answer handled call with
          | error error => simp [hcall, ending, State.withHandled]
          | ok handled' =>
              simp only [List.filterMap_cons, hcall]
              exact congrArg (fun r => (call :: r.1, r.2)) (ih answer t handled')

end Steps

/-! ### The order of calls -/

def Step.TellsEvents (α : Type) (x : Step α) : Prop :=
  x.call? ≠ some .finish

theorem Step.tellsEvents_of_isInner {x : Step α} (hx : x.isInner = true) : x.TellsEvents := by
  cases x with
  | checkSource size => cases hx
  | finish => cases hx
  | _ => simp [TellsEvents, call?]

namespace Plan

theorem Deepens.exists_events {p p' : Plan α} (h : Deepens Step.TellsEvents p p')
    (c : Setting σ) (s : State σ) :
    ∃ events : List Event, p.calls c s = events.map .event := by
  have hcalls : p.calls c s ∈ Set.range (List.map Call.event) := by
    rw [Set.range_list_map]
    intro call hcall
    obtain ⟨m, hm, hcall⟩ := List.mem_filterMap.1 hcall
    cases call with
    | event e => exact ⟨e, rfl⟩
    | finish => exact absurd hcall (h.of_mem_trace c hm)
  obtain ⟨events, hevents⟩ := hcalls
  exact ⟨events, hevents.symm⟩

/-- Runs of the plan tell events, and then perhaps their end. -/
def TellsInOrder (c : Setting σ) (p : Plan α) : Prop :=
  ∀ s, ∃ events isFinished, p.calls c s = Call.ofEvents events isFinished

theorem TellsInOrder.bind {c : Setting σ} {p p' : Plan α} {f : α → Plan β}
    (hp : Deepens Step.TellsEvents p p') (hf : ∀ a, TellsInOrder c (f a)) :
    TellsInOrder c (p >>= f) := by
  intro s
  obtain ⟨events, hevents⟩ := hp.exists_events c s
  rw [calls_bind, hevents]
  cases p.run c s with
  | ok a t =>
      obtain ⟨events', isFinished, hcalls⟩ := hf a t
      exact ⟨events ++ events', isFinished, by simp [hcalls, Call.ofEvents]⟩
  | error error t => exact ⟨events, false, by simp [Call.ofEvents]⟩

theorem tellsInOrder_finish {c : Setting σ} {f : Unit → Plan α}
    (hf : ∀ s, (f ()).calls c s = []) : TellsInOrder c (take .finish >>= f) := by
  intro s
  refine ⟨[], true, ?_⟩
  have hfinish : (take .finish).calls c s = [.finish] := by
    unfold calls take trace
    cases Step.run c .finish s <;> rfl
  rw [calls_bind, hfinish]
  cases (take .finish).run c s with
  | ok a t => simp [hf, Call.ofEvents]
  | error error t => rfl

theorem tellsInOrder_ofSource (c : Setting σ) (s : Source) (level : Nat) :
    TellsInOrder c (ofSource s level) := by
  have hinner {β : Type} (x : Step β) (hx : x.isInner = true) : x.TellsEvents :=
    Step.tellsEvents_of_isInner hx
  have hscan := Deepens.scan hinner (Nat.le_refl level)
  refine .bind (.take (by simp [Step.TellsEvents, Step.call?])) fun _ => ?_
  cases s.kind with
  | dtd =>
      exact .bind (hscan .textEnd s.site s.body).discard fun _ => tellsInOrder_finish
        fun _ => rfl
  | document =>
      refine .bind (.expect s.site _) fun p =>
        .bind (Deepens.scanInternal hinner (Nat.le_refl level) s.site p.2) fun t => ?_
      split
      · next rest =>
        refine .bind (Deepens.scanExternal hinner (Nat.le_refl level) s.site p.1) fun _ =>
          tellsInOrder_finish fun t => ?_
        cases Source.skipMisc rest with
        | error f => rfl
        | ok left => cases left <;> rfl
      · exact fun _ => ⟨[], false, rfl⟩

end Plan
end Markup

namespace Source

open Markup

/-- What a scan of a source tells the handler; it may refuse what it is told last. -/
def calls (s : Source) (c : Setting σ) (handled : σ) : List Call :=
  (Plan.ofSource s c.limits.entityDepth).calls c (.start handled)

theorem run_eq_ending (s : Source) (resolver : Resolver) (limits : Limits) (h : Handler σ)
    (handled : σ) :
    s.run resolver limits h handled = ending
      ((Plan.ofSource s limits.entityDepth).run ⟨h, resolver, limits⟩ (.start handled)) := by
  rw [Plan.run_ofSource ⟨h, resolver, limits⟩, run]
  cases s.scan ⟨h, resolver, limits⟩ (.start handled) <;> rfl

section Calls

variable (s : Source) (resolver : Resolver) (limits : Limits)

theorem calls_eq_heed (h : Handler σ) (handled : σ) :
    (s.calls ⟨h, resolver, limits⟩ handled, s.run resolver limits h handled) =
      h.heed (s.run resolver limits Recording.handler .empty).2 handled
        (s.calls ⟨Recording.handler, resolver, limits⟩ .empty) := by
  rw [run_eq_ending, run_eq_ending]
  exact (Plan.ofSource s limits.entityDepth).heed_calls resolver limits h
    (.start .empty) handled

end Calls

end Source

namespace Handler

open Markup

theorem heed_recording (result : Except Error α) (r : Recording) (events : List Event)
    (isFinished : Bool) :
    Recording.handler.heed result r (Call.ofEvents events isFinished) =
      (Call.ofEvents events isFinished,
      ⟨(r.events.toList ++ events).toArray, r.isFinished || isFinished⟩, result) := by
  induction events generalizing r with
  | nil => cases isFinished <;> simp [Call.ofEvents, heed, answer, Recording.handler]
  | cons e events ih =>
      have hrest := ih { r with events := r.events.push e }
      unfold Call.ofEvents at hrest ⊢
      simp only [List.map_cons, List.cons_append, heed, answer, Recording.handler] at hrest ⊢
      rw [hrest]
      simp

/-- What comes of a handler that refuses the call behind `n` events. -/
theorem heed_refusing (error : Error) (result : Except Error α) (n : Nat) (r : Recording)
    (events : List Event) (isFinished : Bool) :
    (Recording.handler.refusing error).heed result (n, r) (Call.ofEvents events isFinished) =
      if events.length ≤ n then (Call.ofEvents events isFinished, (n - events.length,
        ⟨(r.events.toList ++ events).toArray, r.isFinished || isFinished⟩), result)
      else ((events.take (n + 1)).map .event,
        (0, ⟨(r.events.toList ++ events.take n).toArray, r.isFinished⟩),
        .error error) := by
  induction events generalizing n r with
  | nil =>
      cases isFinished <;>
        simp [Call.ofEvents, heed, answer, refusing, Recording.handler, Except.map]
  | cons e events ih =>
      cases n with
      | zero => simp [Call.ofEvents, heed, answer, refusing]
      | succ n =>
          have hrest := ih n { r with events := r.events.push e }
          unfold Call.ofEvents at hrest ⊢
          simp only [List.map_cons, List.cons_append, heed, answer, refusing,
            Recording.handler, Except.map] at hrest ⊢
          rw [hrest]
          by_cases hlength : events.length ≤ n <;> simp [hlength]

theorem heed_prefix (h : Handler σ) (result : Except Error α) (handled : σ)
    (calls : List Call) : (h.heed result handled calls).1 <+: calls := by
  induction calls generalizing handled with
  | nil => exact List.prefix_refl []
  | cons call calls ih =>
      unfold heed
      cases h.answer handled call with
      | ok handled => exact List.cons_prefix_cons.2 ⟨rfl, ih handled⟩
      | error error => exact ⟨calls, rfl⟩

end Handler

namespace Source

open Markup

variable (s : Source) (resolver : Resolver) (limits : Limits)

/-- A handler that takes everything is told the events, and then their end if the run comes to
it. -/
theorem calls_recording : s.calls ⟨Recording.handler, resolver, limits⟩ .empty =
    let recording := (s.run resolver limits Recording.handler .empty).1
    Call.ofEvents recording.events.toList recording.isFinished := by
  obtain ⟨events, isFinished, hcalls⟩ :=
    Plan.tellsInOrder_ofSource ⟨Recording.handler, resolver, limits⟩ s limits.entityDepth
      (.start .empty)
  have hheed := s.calls_eq_heed resolver limits Recording.handler .empty
  have hsource : s.calls ⟨Recording.handler, resolver, limits⟩ .empty =
    Call.ofEvents events isFinished := hcalls
  rw [hsource, Handler.heed_recording] at hheed
  have hrecording := congrArg (fun r => r.2.1) hheed
  dsimp only at hrecording
  rw [hrecording, hsource]
  simp [Recording.empty]

/-- Whatever the handler is, it gets the calls that one gets which takes everything, up to the
first one that it refuses; so it is told events and at last, once, their end. A handler that
refuses the event behind the first `n` sees just these: if there are no more the run is the
same, and else it ends with the error of the handler, which is not called again. -/
theorem run_refusing :
    let whole := s.run resolver limits Recording.handler .empty
    let events := whole.1.events.toList
    (∀ {τ : Type} (h : Handler τ) (handled : τ),
      (s.calls ⟨h, resolver, limits⟩ handled, s.run resolver limits h handled) =
          h.heed whole.2 handled (Call.ofEvents events whole.1.isFinished) ∧
        s.calls ⟨h, resolver, limits⟩ handled <+: events.map .event ++ [.finish]) ∧
      ∀ n error,
        let refusing := Recording.handler.refusing error
        let cut := s.run resolver limits refusing (n, .empty)
        cut.1.2.events.toList = events.take n ∧
          if events.length ≤ n then
            cut.2 = whole.2 ∧ cut.1.2.isFinished = whole.1.isFinished ∧
              s.calls ⟨refusing, resolver, limits⟩ (n, .empty) =
                Call.ofEvents events whole.1.isFinished
          else
            cut.2 = .error error ∧ cut.1.2.isFinished = false ∧
              s.calls ⟨refusing, resolver, limits⟩ (n, .empty) =
                (events.take (n + 1)).map .event := by
  intro whole events
  have hheed {τ : Type} (h : Handler τ) (handled : τ) :
      (s.calls ⟨h, resolver, limits⟩ handled, s.run resolver limits h handled) =
        h.heed whole.2 handled (Call.ofEvents events whole.1.isFinished) := by
    rw [calls_eq_heed, calls_recording]
  refine ⟨fun h handled => ⟨hheed h handled, ?_⟩, fun n error => ?_⟩
  · have hcalls := h.heed_prefix whole.2 handled (Call.ofEvents events whole.1.isFinished)
    rw [← hheed h handled] at hcalls
    refine hcalls.trans ?_
    unfold Call.ofEvents
    cases whole.1.isFinished <;> simp
  · intro refusing cut
    have hcut := hheed refusing (n, .empty)
    rw [Handler.heed_refusing] at hcut
    have hrun : cut = _ := congrArg Prod.snd hcut
    have hcalls := congrArg Prod.fst hcut
    by_cases hlength : events.length ≤ n
    · rw [if_pos hlength] at hrun hcalls ⊢
      rw [hrun]
      exact ⟨by simp [Recording.empty, List.take_of_length_le hlength], rfl,
        by simp [Recording.empty], hcalls⟩
    · rw [if_neg hlength] at hrun hcalls ⊢
      rw [hrun]
      exact ⟨by simp [Recording.empty], rfl, rfl, hcalls⟩

end Source
end Doctype
