import Doctype.Proofs.Markup.Congruence

/-!
Plans with more levels. The plan of a source for more levels takes the same steps as the one
for fewer levels, and goes on where that one finds no level left (`Plan.deepens_ofSource`).
With equal levels this says of what kind the steps of a plan are (`Plan.Deepens.of_mem_trace`).
-/

namespace Doctype.Markup

variable {σ α β : Type}

def Step.isInner : Step α → Bool
  | checkSource _ => false
  | finish => false
  | _ => true

namespace Plan

/-- All steps of the first plan are of the kind `P`, and the second plan takes the same ones,
except that it may enter entities where the first one finds no level left. -/
inductive Deepens (P : (β : Type) → Step β → Prop) : Plan α → Plan α → Prop
  | done (a : α) : Deepens P (done a) (done a)
  | fail (error : Error) : Deepens P (fail error) (fail error)
  | step {β : Type} {x : Step β} {next next' : β → Plan α} (hx : P _ x)
      (h : ∀ answer, Deepens P (next answer) (next' answer)) :
        Deepens P (step x next) (step x next')
  | enter {fault : Fault → Error} {name : Text} {next : Empty → Plan α} {next' : Unit → Plan α}
      (hx : P _ (.enterTooDeep fault name)) :
      Deepens P (step (.enterTooDeep fault name) next) (step (.enter fault name) next')

namespace Deepens

variable {P : (β : Type) → Step β → Prop}

theorem bind {p p' : Plan α} {f f' : α → Plan β} (hp : Deepens P p p')
    (hf : ∀ a, Deepens P (f a) (f' a)) : Deepens P (p >>= f) (p' >>= f') := by
  change Deepens P (p.bind f) (p'.bind f')
  induction hp with
  | done a => exact hf a
  | fail error => exact .fail error
  | step hx _ ih => exact .step hx ih
  | enter hx => exact .enter hx

theorem take {x : Step α} (hx : P _ x) : Deepens P (take x) (take x) :=
  .step hx .done

theorem discard {p p' : Plan α} (hp : Deepens P p p') : Deepens P (discard p) (discard p') :=
  hp.bind fun _ => .done _

theorem within (hP : ∀ {β : Type} (x : Step β), x.isInner = true → P β x)
    (fault : Fault → Error) (name : Text) {inside inside' : Option (Plan α)}
    (h : GoesDeeper (Deepens P) inside inside') :
    Deepens P (within fault name inside) (within fault name inside') := by
  cases inside with
  | none =>
      cases inside' with
      | none => exact .step (hP _ rfl) nofun
      | some inside' => exact .enter (hP _ rfl)
  | some inside =>
      obtain ⟨inside', rfl, hinside⟩ := h inside rfl
      exact (take (hP _ rfl)).bind fun _ => hinside.bind fun a => (take (hP _ rfl)).bind
        fun _ => .done a

/-! ### Texts -/

section Texts

variable (hP : ∀ {β : Type} (x : Step β), x.isInner = true → P β x)
include hP

theorem congruence : Congruence (fun _ => Deepens P) Eq Eq where
  done := .done
  fail f hfault := hfault ▸ .fail _
  bind := bind
  take {_ x} hx := take (hP x (by cases x <;> simp_all [Step.isPlain, Step.isInner]))
  within name hfault h := hfault ▸ within hP _ name h
  fault rest hsite := by rw [hsite]
  location hsite := by rw [hsite]
  ofEntity name text hsite := by rw [hsite]
  ofResource _ := rfl

theorem scan {level level' : Nat} (hlevel : level ≤ level') (stop : Stop) (site : Site)
    (t : Text) : Deepens P (scan level stop site t) (scan level' stop site t) :=
  (congruence hP).scan rfl hlevel stop t

theorem scanInternal {level level' : Nat} (hlevel : level ≤ level') (site : Site) (t : Text) :
    Deepens P (scanInternal level site t) (scanInternal level' site t) := by
  unfold Plan.scanInternal
  split
  · exact (scan hP hlevel .bracket site _).bind fun rest => .done _
  · exact .done t

theorem scanExternal {level level' : Nat} (hlevel : level ≤ level') (site : Site)
    (id : Option ExternalId) :
    Deepens P (scanExternal level site id) (scanExternal level' site id) := by
  cases id with
  | none => exact .done ()
  | some id => exact (take (hP _ rfl)).bind fun r => (scan hP hlevel .textEnd _ r.text).discard

end Texts

/-- The steps of a run are of the kind that those of its plan are. -/
theorem of_mem_trace {p p' : Plan α} (h : Deepens P p p') (c : Setting σ) {s : State σ}
    {m : Moment σ} (hm : m ∈ p.trace c s) : P _ m.step := by
  induction h generalizing s with
  | done a => cases hm
  | fail error => cases hm
  | @step β x next next' hx _ ih =>
      unfold trace at hm
      cases hrun : x.run c s with
      | ok answer t =>
          rw [hrun] at hm
          rcases List.mem_cons.1 hm with rfl | hm
          · exact hx
          · exact ih answer hm
      | error error t =>
          rw [hrun] at hm
          cases List.mem_singleton.1 hm
          exact hx
  | @enter fault name next next' hx =>
      unfold trace at hm
      cases hrun : (Step.enterTooDeep fault name).run c s with
      | ok answer t => exact answer.elim
      | error error t =>
          rw [hrun] at hm
          cases List.mem_singleton.1 hm
          exact hx

theorem expect (site : Site) (result : Except Failure α) :
    Deepens P (expect site result) (expect site result) := by
  cases result with
  | ok a => exact .done a
  | error f => exact .fail _

end Deepens

/-- A source is read with more levels in the same way. -/
theorem deepens_ofSource (s : Source) {level level' : Nat} (hlevel : level ≤ level') :
    Deepens (fun _ _ => True) (ofSource s level) (ofSource s level') := by
  have htext {β : Type} (x : Step β) (_ : x.isInner = true) : True := trivial
  refine (Deepens.take trivial).bind fun _ => ?_
  cases s.kind with
  | dtd =>
      exact (Deepens.scan htext hlevel .textEnd s.site s.body).discard.bind fun _ =>
        .take trivial
  | document =>
      refine (Deepens.expect s.site _).bind fun p =>
        (Deepens.scanInternal htext hlevel s.site p.2).bind fun t => ?_
      split
      · refine (Deepens.scanExternal htext hlevel s.site p.1).bind fun _ =>
            (Deepens.take trivial).bind fun _ =>
          (Deepens.expect s.site _).bind fun left => ?_
        split
        · exact .fail .endOfDtd
        · exact .done ()
      · exact .fail _

end Plan
end Doctype.Markup
