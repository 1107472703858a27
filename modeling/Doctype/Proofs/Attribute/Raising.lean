import Doctype.Proofs.Attribute.Expansion
import Doctype.Proofs.Content.Raising
import Doctype.Proofs.Markup.Raising

/-!
Default values under larger bounds. An entity that is met while it is being expanded is told
before any bound is looked at, and every check that is passed under smaller bounds is passed
under larger ones. So a value has the normal form, or the recursive entity, that it had, unless
a smaller bound refused it (`normalize_raised`).
-/

namespace Doctype

def Error.IsExcess (e : Error) : Prop :=
  ∃ excess, e = .limitExceeded excess

namespace Attribute.Value

open Markup.Plan (GoesDeeper)

variable {limits limits' : Limits}
  {deeper deeper' : Option (Text → Progress → Except Error Progress)}

/-- Two ways to expand texts that end alike, unless the first one passes a bound. -/
def AgreeOnTexts (expand expand' : Text → Progress → Except Error Progress) : Prop :=
  ∀ t p, AgreesUnless Error.IsExcess (expand t p) (expand' t p)

theorem checkExpansionSize_raised (h : limits ≤ limits') (size : Nat) :
    AgreesUnless Error.IsExcess ((limits.checkExpansionSize size).mapError .limitExceeded)
      ((limits'.checkExpansionSize size).mapError .limitExceeded) := by
  obtain ⟨-, -, hsize, -, -⟩ := h
  unfold Limits.checkExpansionSize
  rcases Limits.atMost_cases .expansionSize hsize size
    with ⟨hsmall, hlarge⟩ | ⟨excess, hexcess⟩
  · rw [hsmall, hlarge]
    exact .refl _
  · rw [hexcess]
    exact .inr ⟨_, ⟨excess, rfl⟩, rfl⟩

theorem expandEntity_raised (h : limits ≤ limits')
    (hdeeper : GoesDeeper AgreeOnTexts deeper deeper') (name u : Text) (p : Progress) :
    AgreesUnless Error.IsExcess (expandEntity limits deeper name u p)
      (expandEntity limits' deeper' name u p) := by
  obtain ⟨-, hexpansions, -, -, -⟩ := id h
  unfold expandEntity enter
  by_cases hactive : p.active.contains name = true
  · simp only [hactive, if_true]
    exact .refl _
  · simp only [hactive, Bool.false_eq_true, if_false, Limits.checkExpansions]
    rcases Limits.atMost_cases .expansions hexpansions (p.expansions + 1)
      with ⟨hsmall, hlarge⟩ | ⟨excess, hexcess⟩
    · rw [hsmall, hlarge]
      cases deeper with
      | none => exact .inr ⟨_, ⟨_, rfl⟩, rfl⟩
      | some expand =>
          obtain ⟨expand', rfl, hexpand⟩ := hdeeper expand rfl
          exact (hexpand u _).bind fun after => (checkExpansionSize_raised h _).bind
            fun _ => .refl _
    · rw [hexcess]
      exact .inr ⟨_, ⟨excess, rfl⟩, rfl⟩

theorem expandPiece_raised (h : limits ≤ limits')
    (hdeeper : GoesDeeper AgreeOnTexts deeper deeper') (g : Graph) (p : Progress)
    (piece : Piece) :
    AgreesUnless Error.IsExcess (expandPiece g limits deeper p piece)
      (expandPiece g limits' deeper' p piece) := by
  cases piece with
  | literal c => exact .refl _
  | denoted c => exact .refl _
  | verbatim t => exact .refl _
  | reference n =>
      unfold expandPiece
      cases hentity : g.entity? .general n with
      | none =>
          simp only [hentity]
          exact .refl _
      | some e =>
          cases hdefinition : e.definition with
          | external id notationName =>
              simp only [hentity, hdefinition]
              exact .refl _
          | literal u =>
              simp only [hentity, hdefinition]
              exact expandEntity_raised h hdeeper n u _

theorem foldlM_raised (h : limits ≤ limits')
    (hdeeper : GoesDeeper AgreeOnTexts deeper deeper') (g : Graph) (ps : List Piece)
    (p : Progress) :
    AgreesUnless Error.IsExcess (ps.foldlM (expandPiece g limits deeper) p)
      (ps.foldlM (expandPiece g limits' deeper') p) := by
  induction ps generalizing p with
  | nil => exact .refl _
  | cons piece ps ih =>
      rw [List.foldlM_cons, List.foldlM_cons]
      exact (expandPiece_raised h hdeeper g p piece).bind ih

/-- With more room, too, a text is expanded as before, by induction on the room. -/
theorem expand_raised (h : limits ≤ limits') (g : Graph) {room room' : Nat}
    (hroom : room ≤ room') : AgreeOnTexts (expand g limits room) (expand g limits' room') := by
  induction room generalizing room' with
  | zero =>
      intro t p
      obtain ⟨deeper', -, heq⟩ := exists_deeper g limits' room'
      rw [heq]
      exact foldlM_raised h (Markup.Plan.goesDeeper_none _) g (pieces t) p
  | succ room ih =>
      obtain ⟨room', rfl⟩ : ∃ k, room' = k + 1 := ⟨room' - 1, by omega⟩
      intro t p
      refine foldlM_raised h (fun expand hexpand => ?_) g (pieces t) p
      cases hexpand
      exact ⟨_, rfl, ih (Nat.le_of_succ_le_succ hroom)⟩

/-- Under larger bounds a value is normalized as before, unless it was refused for a bound
before. -/
theorem normalize_raised (h : limits ≤ limits') (g : Graph) (raw : Text) (isTokenized : Bool) :
    AgreesUnless Error.IsExcess (normalize g limits raw isTokenized)
      (normalize g limits' raw isTokenized) := by
  obtain ⟨-, -, -, hdepth, -⟩ := id h
  exact (expand_raised h g hdepth raw .start).bind fun _ => .refl _

end Attribute.Value
end Doctype
