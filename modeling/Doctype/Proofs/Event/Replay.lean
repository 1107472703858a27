import Doctype.Proofs.Markup.Handling

/-!
What a stream of events replays. A stream makes the calls for the events up to where it stops,
and one for their end (`Stream.run_eq_heed`), whatever the handler makes of them. It stops only
in front of an event, so one that is to stop behind its last event finishes like one that is
not to stop at all (`Stream.collect_delivered`).
-/

namespace Doctype.Stream

open Markup

variable {σ : Type}

def delivered (stream : Stream) : List Event :=
  match stream.stopAfter with
  | some count => stream.events.take count
  | none => stream.events

def stopsEarly (stream : Stream) : Bool :=
  match stream.stopAfter with
  | some count => count < stream.events.length
  | none => false

def ending (isEarly : Bool) : Except Error Unit :=
  if isEarly then .error .endOfDtd else .ok ()

theorem runFrom_nil (h : Handler σ) (stopAfter : Option Nat) (count : Nat) (s : σ) :
    runFrom h stopAfter count s [] = (h.heed (ending false) s (Call.ofEvents [] true)).2 := by
  simp only [runFrom, Call.ofEvents, List.map_nil, List.nil_append, if_true, Handler.heed,
    Handler.answer]
  cases h.finish s <;> rfl

theorem runFrom_stop (h : Handler σ) (count : Nat) (s : σ) (event : Event)
    (events : List Event) :
    runFrom h (some count) count s (event :: events) =
      (h.heed (ending true) s (Call.ofEvents [] true)).2 := by
  simp only [runFrom, Call.ofEvents, List.map_nil, List.nil_append, if_true, Handler.heed,
    Handler.answer]
  cases h.finish s <;> rfl

theorem runFrom_cons {h : Handler σ} {stopAfter : Option Nat} {count : Nat} {event : Event}
    {events delivered : List Event} {result : Except Error Unit}
    (hstop : stopAfter ≠ some count)
    (hrest : ∀ s, runFrom h stopAfter (count + 1) s events =
      (h.heed result s (Call.ofEvents delivered true)).2)
    (s : σ) :
    runFrom h stopAfter count s (event :: events) =
      (h.heed result s (Call.ofEvents (event :: delivered) true)).2 := by
  simp only [runFrom, if_neg hstop, Call.ofEvents, List.map_cons, List.cons_append,
    Handler.heed, Handler.answer]
  cases h.accept s event with
  | error error => rfl
  | ok s => exact hrest s

theorem runFrom_none (h : Handler σ) (count : Nat) (s : σ) (events : List Event) :
    runFrom h none count s events =
      (h.heed (ending false) s (Call.ofEvents events true)).2 := by
  induction events generalizing count s with
  | nil => exact runFrom_nil h none count s
  | cons event events ih =>
      have hstop : (none : Option Nat) ≠ some count := (Option.some_ne_none count).symm
      exact runFrom_cons hstop (ih (count + 1)) s

/-- A stream that is to stop after `left` more events makes the calls for these, by induction
on the events. -/
theorem runFrom_some (h : Handler σ) (count left : Nat) (s : σ) (events : List Event) :
    runFrom h (some (count + left)) count s events =
      (h.heed (ending (left < events.length)) s
        (Call.ofEvents (events.take left) true)).2 := by
  induction events generalizing count left s with
  | nil => simpa using runFrom_nil h (some (count + left)) count s
  | cons event events ih =>
      cases left with
      | zero => exact runFrom_stop h count s event events
      | succ left =>
          have hrest (s : σ) := ih (count + 1) left s
          rw [Nat.add_right_comm] at hrest
          have hstop : some (count + (left + 1)) ≠ some count := by
            simp only [ne_eq, Option.some.injEq]
            omega
          simpa using runFrom_cons hstop hrest s

/-- A stream makes the calls for the events that it delivers, and one for their end, up to the
first one that the handler refuses. -/
theorem run_eq_heed (stream : Stream) (h : Handler σ) (s : σ) :
    stream.run h s = (h.heed (ending stream.stopsEarly) s
      (Call.ofEvents stream.delivered true)).2 := by
  obtain ⟨events, stopAfter⟩ := stream
  cases stopAfter with
  | none => exact runFrom_none h 0 s events
  | some count =>
      have hrun := runFrom_some h 0 count s events
      rwa [Nat.zero_add] at hrun

/-- The log of a stream holds the events up to where the stream is to stop. It is marked as
stopped early exactly if there is an event behind that place: a stream that is to stop behind
its last event gives all events and finishes. -/
theorem collect_delivered (events : List Event) :
    (∀ count, collect ⟨events, some count⟩ =
      .ok ⟨events.take count, decide (count < events.length)⟩) ∧
      collect ⟨events, none⟩ = .ok ⟨events, false⟩ ∧
      ∀ (σ : Type) (h : Handler σ) (s : σ) (stopAfter : Option Nat),
        run ⟨events, stopAfter⟩ h s = (h.heed (ending (stopsEarly ⟨events, stopAfter⟩)) s
          (Call.ofEvents (delivered ⟨events, stopAfter⟩) true)).2 := by
  have hcollect (stream : Stream) : stream.collect =
      .ok ⟨stream.delivered, stream.stopsEarly⟩ := by
    have hrun := stream.run_eq_heed Recording.handler .empty
    rw [Handler.heed_recording] at hrun
    unfold collect
    rw [hrun]
    cases stream.stopsEarly <;> rfl
  exact ⟨fun count => hcollect _, hcollect _, fun σ h s stopAfter => run_eq_heed _ h s⟩

/-- A stream of one event that is to stop after one event does not stop. -/
theorem collect_lastEvent :
    let events : List Event := [.comment " a "]
    1 ≤ events.length ∧ collect ⟨events, some 1⟩ = .ok ⟨events, false⟩ ∧
      collect ⟨events, some 1⟩ ≠ .ok ⟨events.take 1, true⟩ := by
  intro events
  refine ⟨Nat.le_refl 1, rfl, fun h => ?_⟩
  cases h

end Doctype.Stream
