import Doctype.Proofs.Markup.Handling

/-!
Larger bounds. A step that stays within smaller bounds does the same within larger ones, and
the plan for more levels goes on where the one for fewer levels ends; so raising the bounds of
a scan only extends it (`Source.run_raised`).
-/

namespace Doctype

variable {σ α : Type}

namespace Limits

/-- Bounds are smaller if none of them is larger. -/
instance : LE Limits where
  le l l' := l.contentModelDepth ≤ l'.contentModelDepth ∧
    l.entityExpansions ≤ l'.entityExpansions ∧
    l.entityExpansionSize ≤ l'.entityExpansionSize ∧ l.entityDepth ≤ l'.entityDepth ∧
    l.dtdSize ≤ l'.dtdSize

/-- A number passes a larger bound, too, unless it is over the smaller one. -/
theorem atMost_cases (excess : Nat → Nat → Excess) {bound bound' : Nat} (h : bound ≤ bound')
    (n : Nat) :
    atMost excess bound n = .ok () ∧ atMost excess bound' n = .ok () ∨
      ∃ e, atMost excess bound n = .error e := by
  by_cases hn : n ≤ bound
  · exact .inl ⟨if_pos hn, if_pos (Nat.le_trans hn h)⟩
  · exact .inr ⟨excess n bound, if_neg hn⟩

end Limits

namespace Markup

section Steps

variable {limits limits' : Limits} (h : limits ≤ limits') (handler : Handler σ)
  (resolver : Resolver)
include h

/-- Within larger bounds a step does the same, or a smaller bound ends it before the handler is
told anything. -/
theorem Step.run_larger (x : Step α) (s : State σ) :
    x.run ⟨handler, resolver, limits⟩ s = x.run ⟨handler, resolver, limits'⟩ s ∨
      x.call? = none ∧ ∃ excess t, x.run ⟨handler, resolver, limits⟩ s =
        .error (.limitExceeded excess) t := by
  obtain ⟨-, hexpansions, hsize, -, hdtd⟩ := h
  cases x with
  | checkSource size =>
      simp only [Step.run, Limits.checkDtdSize]
      rcases Limits.atMost_cases .dtdSize hdtd size with ⟨hsmall, hlarge⟩ | ⟨excess, hexcess⟩
      · exact .inl (by rw [hsmall, hlarge])
      · exact .inr ⟨rfl, excess, s, by rw [hexcess]; rfl⟩
  | checkExpansion size =>
      simp only [Step.run, Limits.checkExpansionSize]
      rcases Limits.atMost_cases .expansionSize hsize size
        with ⟨hsmall, hlarge⟩ | ⟨excess, hexcess⟩
      · exact .inl (by rw [hsmall, hlarge])
      · exact .inr ⟨rfl, excess, s, by rw [hexcess]; rfl⟩
  | enter fault name =>
      simp only [Step.run, enter_apply, Limits.checkExpansions]
      by_cases hactive : s.active.contains name = true
      · exact .inl (by simp only [hactive, if_true])
      · simp only [hactive, Bool.false_eq_true, if_false]
        rcases Limits.atMost_cases .expansions hexpansions (s.expansions + 1)
          with ⟨hsmall, hlarge⟩ | ⟨excess, hexcess⟩
        · exact .inl (by rw [hsmall, hlarge])
        · exact .inr ⟨rfl, excess, _, by rw [hexcess]⟩
  | enterTooDeep fault name =>
      simp only [Step.run, enter_apply, Limits.checkExpansions]
      by_cases hactive : s.active.contains name = true
      · exact .inl (by simp only [hactive, if_true])
      · simp only [hactive, Bool.false_eq_true, if_false]
        refine .inr ⟨rfl, ?_⟩
        cases Limits.atMost .expansions limits.entityExpansions (s.expansions + 1) with
        | error excess => exact ⟨excess, _, rfl⟩
        | ok u => exact ⟨_, _, rfl⟩
  | lookup name => exact .inl rfl
  | leave => exact .inl rfl
  | load base id => exact .inl rfl
  | report base e => exact .inl rfl
  | finish => exact .inl rfl

omit h in
theorem enter_larger (fault : Fault → Error) (name : Text) (s : State σ) :
    (∃ error t, Step.run ⟨handler, resolver, limits⟩ (.enterTooDeep fault name) s =
      .error error t ∧
        Step.run ⟨handler, resolver, limits'⟩ (.enter fault name) s = .error error t) ∨
      ∃ excess t, Step.run ⟨handler, resolver, limits⟩ (.enterTooDeep fault name) s =
        .error (.limitExceeded excess) t := by
  simp only [Step.run, enter_apply]
  by_cases hactive : s.active.contains name = true
  · simp only [hactive, if_true]
    exact .inl ⟨_, _, rfl, rfl⟩
  · simp only [hactive, Bool.false_eq_true, if_false]
    refine .inr ?_
    cases limits.checkExpansions (s.expansions + 1) with
    | error excess => exact ⟨excess, _, rfl⟩
    | ok u => exact ⟨_, _, rfl⟩

/-- A plan that may go deeper, within larger bounds, does and tells the same, or a smaller
bound ends the first plan after some of what the second one tells. -/
theorem Plan.Deepens.run_larger {P : (β : Type) → Step β → Prop} {p p' : Plan α}
    (hp : Deepens P p p') (s : State σ) :
    (p.run ⟨handler, resolver, limits⟩ s = p'.run ⟨handler, resolver, limits'⟩ s ∧
        p.calls ⟨handler, resolver, limits⟩ s = p'.calls ⟨handler, resolver, limits'⟩ s) ∨
      (∃ excess t, p.run ⟨handler, resolver, limits⟩ s = .error (.limitExceeded excess) t) ∧
        p.calls ⟨handler, resolver, limits⟩ s <+: p'.calls ⟨handler, resolver, limits'⟩ s := by
  induction hp generalizing s with
  | done a => exact .inl ⟨rfl, rfl⟩
  | fail error => exact .inl ⟨rfl, rfl⟩
  | @step β x next next' _ _ ih =>
      simp only [run, calls, trace, bind_apply]
      rcases x.run_larger h handler resolver s with hsame | ⟨hcall, excess, t, hexcess⟩
      · rw [hsame]
        cases x.run ⟨handler, resolver, limits'⟩ s with
        | error error t => exact .inl ⟨rfl, rfl⟩
        | ok answer t =>
            -- both go on from the same state, and have told the same so far
            rcases ih answer t with ⟨hrun, hcalls⟩ | ⟨hrun, hcalls⟩
            · refine .inl ⟨hrun, ?_⟩
              simp only [calls] at hcalls
              simp only [List.filterMap_cons, hcalls]
            · refine .inr ⟨hrun, ?_⟩
              simp only [List.filterMap_cons]
              cases x.call? with
              | none => exact hcalls
              | some call => exact List.cons_prefix_cons.2 ⟨rfl, hcalls⟩
      · rw [hexcess]
        exact .inr ⟨⟨excess, t, rfl⟩, by simp [hcall]⟩
  | @enter fault name next next' _ =>
      simp only [run, calls, trace, bind_apply]
      rcases enter_larger handler resolver fault name s
        with ⟨error, t, hsmall, hlarge⟩ | ⟨excess, t, hexcess⟩
      · rw [hsmall, hlarge]
        exact .inl ⟨rfl, rfl⟩
      · rw [hexcess]
        exact .inr ⟨⟨excess, t, rfl⟩, by simp [Step.call?]⟩

end Steps

end Markup

namespace Source

open Markup

/-- Raising the bounds of a scan only extends it. The events within the smaller bounds are the
first of those within the larger ones, and a run that is not ended by a bound stays as it is,
whatever it ends with; so it is for the recorded events, and for all that is told to any other
handler. -/
theorem run_raised (s : Source) (resolver : Resolver) {limits limits' : Limits}
    (h : limits ≤ limits') :
    (s.run resolver limits Recording.handler .empty).1.events.toList <+:
        (s.run resolver limits' Recording.handler .empty).1.events.toList ∧
      ∀ {τ : Type} (handler : Handler τ) (handled : τ),
        s.calls ⟨handler, resolver, limits⟩ handled <+:
          s.calls ⟨handler, resolver, limits'⟩ handled ∧
          ((∀ excess, (s.run resolver limits handler handled).2 ≠
            .error (.limitExceeded excess)) →
            s.calls ⟨handler, resolver, limits'⟩ handled =
              s.calls ⟨handler, resolver, limits⟩ handled ∧
              s.run resolver limits' handler handled =
                s.run resolver limits handler handled) := by
  have hcases {τ : Type} (handler : Handler τ) (handled : τ) :=
    (Plan.deepens_ofSource s h.2.2.2.1).run_larger h handler resolver (.start handled)
  have hextends {τ : Type} (handler : Handler τ) (handled : τ) :
      s.calls ⟨handler, resolver, limits⟩ handled <+:
        s.calls ⟨handler, resolver, limits'⟩ handled := by
    rcases hcases handler handled with ⟨-, hcalls⟩ | ⟨-, hcalls⟩
    · exact ⟨[], (List.append_nil _).trans hcalls⟩
    · exact hcalls
  refine ⟨?_, fun handler handled => ⟨hextends handler handled, fun hend => ?_⟩⟩
  · -- the recorded events are those that the handler is told
    have hevents := (hextends Recording.handler .empty).filterMap Call.event?
    rwa [calls_recording, calls_recording, Call.filterMap_event?_ofEvents,
      Call.filterMap_event?_ofEvents] at hevents
  · rw [run_eq_ending, run_eq_ending]
    rw [run_eq_ending] at hend
    rcases hcases handler handled with ⟨hrun, hcalls⟩ | ⟨⟨excess, t, hexcess⟩, -⟩
    · exact ⟨hcalls.symm, congrArg ending hrun.symm⟩
    · exact absurd (congrArg (fun r => (ending r).2) hexcess) (hend excess)

/-- The smaller bounds are used up, and the error is none of theirs: it stays as it is. -/
theorem run_raised_recursion :
    let s := Source.ofText .dtd "<!ENTITY % a '%a;'><!--b-->%a;"
    let limits : Limits := ⟨0, 1, 10, 1, 30⟩
    let small := s.run (.ofCatalog []) limits Recording.handler .empty
    let large := s.run (.ofCatalog []) .standard Recording.handler .empty
    limits ≤ .standard ∧ large = small ∧
      large.1.events.toList = [.entity .parameter ['a'] "'%a;'", .comment ['b']] ∧
      large.2 =
        .error (.eventSource (.markup "<dtd> (%a;)" 1 (.recursiveEntity ['a'] [['a']]))) := by
  intro s limits small large
  have hlimits : limits ≤ .standard := ⟨by decide, by decide, by decide, by decide, by decide⟩
  have hevents : small.1.events.toList =
    [.entity .parameter ['a'] "'%a;'", .comment ['b']] := by decide +kernel
  have hresult : small.2 =
      .error (.eventSource (.markup "<dtd> (%a;)" 1 (.recursiveEntity ['a'] [['a']]))) := by
    decide +kernel
  have hend : ∀ excess, small.2 ≠ .error (.limitExceeded excess) := by simp [hresult]
  have hraised : large = small :=
    (((s.run_raised (.ofCatalog []) hlimits).2 Recording.handler .empty).2 hend).2
  exact ⟨hlimits, hraised, hraised ▸ hevents, hraised ▸ hresult⟩

end Source
end Doctype
