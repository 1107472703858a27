import Doctype.Proofs.Content.Acceptance

/-!
Content models under a larger bound on their nesting. The reader looks at the bound only where
a group begins, so it reads the same under a larger one, unless the smaller one refuses a group
(`Spec.parse_raised`). Runs that differ no more than that are put together as their parts are
(`AgreesUnless.bind`).
-/

namespace Doctype

/-- `AgreesUnless P x y`: the second run ends like the first one, unless that one fails for a
reason of the kind `P`. -/
def AgreesUnless {ε α : Type} (P : ε → Prop) (x y : Except ε α) : Prop :=
  x = y ∨ ∃ e, P e ∧ x = .error e

namespace AgreesUnless

variable {ε α β : Type} {P : ε → Prop} {x y : Except ε α}

theorem refl (x : Except ε α) : AgreesUnless P x x :=
  .inl rfl

/-- Runs go on alike behind runs that end alike. -/
theorem bind {f g : α → Except ε β} (h : AgreesUnless P x y)
    (hfg : ∀ a, AgreesUnless P (f a) (g a)) : AgreesUnless P (x >>= f) (y >>= g) := by
  rcases h with rfl | ⟨e, he, rfl⟩
  · cases x with
    | error e => exact refl _
    | ok a => exact hfg a
  · exact .inr ⟨e, he, rfl⟩

theorem eq (h : AgreesUnless P x y) (hx : ∀ e, x = .error e → ¬P e) : y = x := by
  rcases h with rfl | ⟨e, he, hfail⟩
  · rfl
  · exact absurd he (hx e hfail)

end AgreesUnless

namespace Content

def Failure.IsTooDeep (f : Failure) : Prop :=
  ∃ bound, f.fault = .tooDeep bound

variable {bound bound' stop : Nat}

mutual

theorem readMember_raised (h : bound ≤ bound') (outer : List OpenGroup) (g : OpenGroup)
    (toks : List Token) :
    AgreesUnless Failure.IsTooDeep (readMember bound stop outer g toks)
      (readMember bound' stop outer g toks) := by
  unfold readMember
  split
  · exact readSeparator_raised h outer _ _
  · exact readSeparator_raised h outer _ _
  · next rest =>
    by_cases hroom : outer.length + 2 ≤ bound
    · rw [if_pos hroom, if_pos (Nat.le_trans hroom h)]
      exact readMember_raised h (g :: outer) .start rest
    · rw [if_neg hroom]
      exact .inr ⟨_, ⟨bound, rfl⟩, rfl⟩
  · exact .refl _
  · exact .refl _
  · exact .refl _
termination_by toks.length

theorem readSeparator_raised (h : bound ≤ bound') (outer : List OpenGroup) (g : OpenGroup)
    (toks : List Token) :
    AgreesUnless Failure.IsTooDeep (readSeparator bound stop outer g toks)
      (readSeparator bound' stop outer g toks) := by
  unfold readSeparator
  split
  · cases outer with
    | nil => exact .refl _
    | cons parent outer => exact readSeparator_raised h outer _ _
  · cases outer with
    | nil => exact .refl _
    | cons parent outer => exact readSeparator_raised h outer _ _
  · cases g.separate? .sequence with
    | none => exact .refl _
    | some g => exact readMember_raised h outer g _
  · cases g.separate? .choice with
    | none => exact .refl _
    | some g => exact readMember_raised h outer g _
  · exact .refl _
  · exact .refl _
termination_by toks.length

end

theorem Spec.ofTokens_raised (h : bound ≤ bound') (toks : List Token) :
    AgreesUnless Failure.IsTooDeep (Spec.ofTokens bound toks) (Spec.ofTokens bound' toks) := by
  unfold Spec.ofTokens
  dsimp only
  split
  · exact .refl _
  · next rest _ =>
    by_cases hroom : 1 ≤ bound
    · rw [if_pos hroom, if_pos (Nat.le_trans hroom h)]
      exact (readMember_raised h [] .start rest).bind fun _ => .refl _
    · rw [if_neg hroom]
      exact .inr ⟨_, ⟨bound, rfl⟩, rfl⟩
  · exact .refl _

/-- Under a larger bound a content model is read as before, unless its groups were nested too
deep before. -/
theorem Spec.parse_raised (h : bound ≤ bound') (raw : Text) :
    AgreesUnless Failure.IsTooDeep (Spec.parse bound raw) (Spec.parse bound' raw) := by
  unfold Spec.parse
  dsimp only
  split
  · exact .refl _
  · split
    · exact .refl _
    · split
      · exact .refl _
      · exact (AgreesUnless.refl _).bind fun toks => Spec.ofTokens_raised h toks

end Content
end Doctype
