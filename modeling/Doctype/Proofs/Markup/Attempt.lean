import Doctype.Markup.Attempt
import Doctype.Proofs.Markup.Scanning

/-!
Scans that may come to nothing. An attempt is a part of a scan that is none if a slice of a
text that it takes is not there, or if a call in it is not smaller than the one that makes it
(`descend`). It leads to where a run of a scan does if it fails as this does, or else gives
something with which the run goes on (`Leads`); then it is not none, and the entities that are
active behind it are known.
-/

namespace Doctype.Markup

variable {σ ι α α' β β' γ : Type}

theorem Attempt.bind_apply (x : Attempt σ α) (f : α → Attempt σ β) (s : State σ) :
    (x >>= f) s = match x s with
      | none => none
      | some (.ok a, t) => f a t
      | some (.error error, t) => some (.error error, t) := by
  change StateT.bind x (ExceptT.bindCont f) s = _
  unfold StateT.bind
  rcases x s with - | ⟨a | a, t⟩ <;> rfl

theorem slice_some_bind (a : α) (f : α → Attempt σ β) : slice (some a) >>= f = f a := rfl

theorem readOrFail_ok_bind (fail : Fault → Error) (a : α) (f : α → Attempt σ β) :
    readOrFail fail (some (.ok a)) >>= f = f a := rfl

theorem perform_bind_apply (x : Scan σ α) (f : α → Attempt σ β) (s : State σ) :
    (perform x >>= f) s = match x s with
      | .ok a t => f a t
      | .error error t => some (.error error, t) := by
  rw [Attempt.bind_apply]
  cases hrun : x s <;> simp only [perform, ExceptT.mk, hrun, ended]

theorem Attempt.exists_of_bind_eq_ok {x : Attempt σ α} {f : α → Attempt σ β} {b : β}
    {s t : State σ} (h : (x >>= f) s = some (.ok b, t)) :
    ∃ a u, x s = some (.ok a, u) ∧ f a u = some (.ok b, t) := by
  rw [bind_apply] at h
  rcases hx : x s with - | ⟨error | a, u⟩
  · rw [hx] at h
    cases h
  · rw [hx] at h
    cases h
  · rw [hx] at h
    exact ⟨a, u, rfl, h⟩

/-! ### Calls that descend -/

/-- A call, if its measure comes before a bound in the state in which it is made; else
nothing. -/
def onlyBefore (measure : ι → State σ → Nat × Nat) (bound : Nat × Nat)
    (call : ι → Attempt σ α) (i : ι) : Attempt σ α :=
  ExceptT.mk fun s => if Precedes (measure i s) bound then call i s else none

theorem descend_apply (measure : ι → State σ → Nat × Nat)
    (body : (ι → Attempt σ α) → ι → Attempt σ α) (i : ι) (s : State σ) :
    descend measure body i s =
      body (onlyBefore measure (measure i s) (descend measure body)) i s := by
  rw [descend]
  rfl

theorem onlyBefore_of_precedes {measure : ι → State σ → Nat × Nat} {bound : Nat × Nat}
    {call : ι → Attempt σ α} {i : ι} {s : State σ} (h : Precedes (measure i s) bound) :
    onlyBefore measure bound call i s = call i s :=
  if_pos h

/-- An attempt does what another one does, where that comes to something. -/
def Extends (x x' : Attempt σ α) : Prop :=
  ∀ s, x s ≠ none → x' s = x s

namespace Extends

theorem refl (x : Attempt σ α) : Extends x x :=
  fun _ _ => rfl

theorem bind {x x' : Attempt σ α} {f f' : α → Attempt σ β} (hx : Extends x x')
    (hf : ∀ a, Extends (f a) (f' a)) : Extends (x >>= f) (x' >>= f') := by
  intro s h
  rw [Attempt.bind_apply] at h
  rw [Attempt.bind_apply, Attempt.bind_apply]
  have hne : x s ≠ none := fun hnone => h (by rw [hnone])
  rw [hx s hne]
  rcases hrun : x s with - | ⟨error | a, t⟩
  · rfl
  · rfl
  · rw [hrun] at h
    exact hf a t h

end Extends

theorem extends_onlyBefore (measure : ι → State σ → Nat × Nat) (bound : Nat × Nat)
    (call : ι → Attempt σ α) (i : ι) : Extends (onlyBefore measure bound call i) (call i) := by
  intro s h
  by_cases hbefore : Precedes (measure i s) bound
  · rw [onlyBefore_of_precedes hbefore]
  · exact absurd (if_neg hbefore) h

/-- Where it comes to something, a recursion whose calls descend is the one whose calls are
free. -/
theorem descend_eq_of_ne_none {measure : ι → State σ → Nat × Nat}
    {body : (ι → Attempt σ α) → ι → Attempt σ α}
    (hbody : ∀ call call', (∀ i, Extends (call i) (call' i)) →
      ∀ i, Extends (body call i) (body call' i))
    {i : ι} {s : State σ} (h : descend measure body i s ≠ none) :
    descend measure body i s = body (descend measure body) i s := by
  rw [descend_apply] at h ⊢
  exact (hbody _ _ (extends_onlyBefore measure (measure i s) (descend measure body)) i s
    h).symm

/-! ### Where attempts lead -/

/-- `Leads P active x y`: the attempt that ended with `x` leads to `y`, to which a run comes.
It failed in the same way, or gave something to which `P` relates what is still to be done in
the run, while the entities `active` are. -/
inductive Leads (P : α → Scan σ β → Prop) (active : List Text) :
    Option (Except Error α × State σ) → EStateM.Result Error (State σ) β → Prop
  | ok {a : α} {y : Scan σ β} {t : State σ} :
      P a y → t.active = active → Leads P active (some (.ok a, t)) (y t)
  | error (error : Error) (t : State σ) :
      Leads P active (some (.error error, t)) (.error error t)

/-- Nothing is still to be done but to return what is related by `R`. -/
def Returns (R : α → β → Prop) (a : α) (y : Scan σ β) : Prop :=
  ∃ b, y = pure b ∧ R a b

namespace Leads

variable {P : α → Scan σ β → Prop} {Q : α' → Scan σ β → Prop} {R : α → β → Prop}
  {Q' : α' → Scan σ γ → Prop}
  {active active' : List Text} {s : State σ} {x : Attempt σ α} {f : α → Attempt σ α'}

theorem mono {P' : α → Scan σ β → Prop} {x : Option (Except Error α × State σ)}
    {y : EStateM.Result Error (State σ) β} (h : Leads P active x y)
    (hP : ∀ a y, P a y → P' a y) : Leads P' active x y := by
  cases h with
  | ok ha ht => exact .ok (hP _ _ ha) ht
  | error error t => exact .error error t

theorem of_pure {a : α} {b : β} (h : R a b) (hs : s.active = active) :
    Leads (Returns R) active ((pure a : Attempt σ α) s) ((pure b : Scan σ β) s) :=
  .ok ⟨b, rfl, h⟩ hs

theorem throw (error : Error) (s : State σ) :
    Leads P active ((MonadExcept.throw error : Attempt σ α) s)
      ((MonadExcept.throw error : Scan σ β) s) :=
  .error error s

theorem of_perform {y : Scan σ α} (h : ∀ a t, y s = .ok a t → t.active = active) :
    Leads (Returns Eq) active ((perform y : Attempt σ α) s) (y s) := by
  change Leads (Returns Eq) active (some (ended (y s))) (y s)
  cases hrun : y s with
  | ok a t => exact of_pure rfl (h a t hrun)
  | error error t => exact .error error t

/-- What leads somewhere comes first, and leads on from there. -/
theorem bind {y : Scan σ β} (hx : Leads P active (x s) (y s))
    (hf : ∀ a y' t, P a y' → t.active = active → Leads Q active' (f a t) (y' t)) :
    Leads Q active' ((x >>= f) s) (y s) := by
  rw [Attempt.bind_apply]
  generalize x s = result, y s = result' at hx
  cases hx with
  | ok ha ht => exact hf _ _ _ ha ht
  | error error t => exact .error error t

theorem seq {y : Scan σ β} {g : β → Scan σ γ} (hx : Leads (Returns R) active (x s) (y s))
    (hf : ∀ a b t, R a b → t.active = active → Leads Q' active' (f a t) (g b t)) :
    Leads Q' active' ((x >>= f) s) ((y >>= g) s) := by
  rw [Attempt.bind_apply, Markup.bind_apply]
  generalize x s = result, y s = result' at hx
  cases hx with
  | ok ha ht =>
      obtain ⟨b, rfl, hb⟩ := ha
      exact hf _ _ _ hb ht
  | error error t => exact .error error t

theorem perform_seq {y : Scan σ α} {g : α → Scan σ γ}
    (hf : ∀ a t, y s = .ok a t → Leads Q' active' (f a t) (g a t)) :
    Leads Q' active' ((perform y >>= f) s) ((y >>= g) s) := by
  rw [perform_bind_apply, Markup.bind_apply]
  cases hrun : y s with
  | ok a t => exact hf a t hrun
  | error error t => exact .error error t

theorem ne_none {x : Option (Except Error α × State σ)} {y : EStateM.Result Error (State σ) β}
    (h : Leads P active x y) : x ≠ none := by
  cases h <;> simp

theorem exists_of_ok {a : α} {t : State σ} {y : EStateM.Result Error (State σ) β}
    (h : Leads P active (some (.ok a, t)) y) :
    t.active = active ∧ ∃ y', P a y' ∧ y = y' t := by
  cases h with
  | ok ha ht => exact ⟨ht, _, ha, rfl⟩

theorem eq_perform {g : β → α} {y : Scan σ β}
    (h : Leads (Returns fun a b => a = g b) active (x s) (y s)) :
    x s = perform (g <$> y) s := by
  change x s = some (ended ((y >>= fun b => pure (g b)) s))
  rw [Markup.bind_apply]
  generalize x s = result, y s = result' at h
  cases h with
  | ok ha ht =>
      obtain ⟨b, rfl, rfl⟩ := ha
      rfl
  | error error t => rfl

end Leads

end Doctype.Markup
