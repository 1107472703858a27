import Doctype.Proofs.Attribute.Pieces
import Doctype.Proofs.Content.Acceptance

/-!
Runs of the expansion of a value. What the expansion of one piece does, and why it fails, is
told once (`expandPiece_eq_ok`, `expandPiece_eq_error`); what every step keeps of a value under
expansion holds at the end of a run, however deep entities are nested (`Kept.expand`).
-/

namespace Doctype.Attribute.Value

variable {g : Graph} {limits : Limits} {t name : Text} {p q : Progress} {piece : Piece}
  {deeper : Option (Text → Progress → Except Error Progress)}

def Progress.write (p : Progress) (t : Text) : Progress :=
  { p with out := p.out.append t }

def Progress.meet (p : Progress) (name : Text) : Progress :=
  { p with references := remember p.references name }

def Progress.miss (p : Progress) (name : Text) : Progress :=
  { p with undeclared := remember p.undeclared name }

def Progress.within (p : Progress) (active : List Text) (expansions : Nat) : Progress :=
  { p with active := active, expansions := expansions }

def Piece.written : Piece → Text
  | .literal c => [if isBlank c then ' ' else c]
  | .denoted c => [c]
  | .verbatim t => t
  | .reference name => writeReference name

def Progress.descend (p : Progress) (name : Text) : Progress :=
  p.within (p.active ++ [name]) (p.expansions + 1)

/-- `Replacement g n u`: the entity `n` is declared with the replacement text `u`. -/
def Replacement (g : Graph) (n u : Text) : Prop :=
  ∃ e, g.entity? .general n = some e ∧ e.definition = .literal u

theorem Replacement.unique {n u v : Text} (hu : Replacement g n u) (hv : Replacement g n v) :
    u = v := by
  obtain ⟨e, he, hu⟩ := hu
  obtain ⟨e', he', hv⟩ := hv
  cases he.symm.trans he'
  cases hu.symm.trans hv
  rfl

theorem Replacement.isDeclared {n u : Text} (hu : Replacement g n u) :
    g.entity? .general n ≠ none := by
  obtain ⟨e, he, -⟩ := hu
  rw [he]
  exact nofun

theorem Replacement.not_external {n u : Text} {e : Entity} {id : ExternalId}
    {notationName : Option Text} (hu : Replacement g n u)
    (he : g.entity? .general n = some e) : e.definition ≠ .external id notationName := by
  obtain ⟨e', he', hliteral⟩ := hu
  cases he.symm.trans he'
  rw [hliteral]
  exact nofun

theorem enter_eq_ok {β : Type} {deeper : Option β} {expand : β} {inner : Progress}
    (h : enter limits deeper name p = .ok (expand, inner)) :
    name ∉ p.active ∧ p.expansions + 1 ≤ limits.entityExpansions ∧ deeper = some expand ∧
      inner = p.descend name := by
  unfold enter at h
  split at h
  · cases h
  · next hactive =>
    split at h
    · cases h
    · cases h
    · next hcheck =>
      cases h
      exact ⟨by simpa using hactive, Limits.atMost_eq_ok hcheck, rfl, rfl⟩

theorem expandEntity_eq_ok {replacement : Text}
    (h : expandEntity limits deeper name replacement p = .ok q) :
    ∃ expand after, name ∉ p.active ∧ p.expansions + 1 ≤ limits.entityExpansions ∧
      deeper = some expand ∧
      expand replacement (p.descend name) = .ok after ∧
        after.out.bytes ≤ limits.entityExpansionSize ∧
      q = after.within p.active after.expansions := by
  obtain ⟨⟨expand, inner⟩, henter, h⟩ := Content.bind_eq_ok_iff.1 h
  obtain ⟨after, hafter, h⟩ := Content.bind_eq_ok_iff.1 h
  obtain ⟨_, hcheck, h⟩ := Content.bind_eq_ok_iff.1 h
  cases h
  obtain ⟨hactive, hcount, hdeeper, rfl⟩ := enter_eq_ok henter
  cases hsize : limits.checkExpansionSize after.out.bytes with
  | error excess =>
      rw [hsize] at hcheck
      cases hcheck
  | ok u =>
      exact ⟨expand, after, hactive, hcount, hdeeper, hafter, Limits.atMost_eq_ok hsize, rfl⟩

/-- The ways in which a piece is expanded: it is written, and its entity is missed or met, or
the replacement text of its entity is expanded in its place. -/
theorem expandPiece_eq_ok (h : expandPiece g limits deeper p piece = .ok q) :
    ((∀ n, piece ≠ .reference n) ∧ q = p.write piece.written) ∨
    ∃ n, piece = .reference n ∧
      (g.entity? .general n = none ∧ q = (p.write (writeReference n)).miss n ∨
      (∃ e id notationName, g.entity? .general n = some e ∧
        e.definition = .external id notationName ∧
        q = (p.meet n).write (writeReference n)) ∨
      ∃ e replacement expand after, g.entity? .general n = some e ∧
        e.definition = .literal replacement ∧
        n ∉ p.active ∧ deeper = some expand ∧
          expand replacement ((p.meet n).descend n) = .ok after ∧
        q = after.within p.active after.expansions) := by
  cases piece with
  | literal c =>
      cases h
      exact .inl ⟨fun _ => Piece.noConfusion, rfl⟩
  | denoted c =>
      cases h
      exact .inl ⟨fun _ => Piece.noConfusion, rfl⟩
  | verbatim t =>
      cases h
      exact .inl ⟨fun _ => Piece.noConfusion, rfl⟩
  | reference n =>
      refine .inr ⟨n, rfl, ?_⟩
      unfold expandPiece at h
      cases hentity : g.entity? .general n with
      | none =>
          simp only [hentity] at h
          cases h
          exact .inl ⟨rfl, rfl⟩
      | some e =>
          simp only [hentity] at h
          cases hdefinition : e.definition with
          | external id notationName =>
              simp only [hdefinition] at h
              cases h
              exact .inr (.inl ⟨e, id, notationName, rfl, hdefinition, rfl⟩)
          | literal replacement =>
              simp only [hdefinition] at h
              obtain ⟨expand, after, hactive, -, hdeeper, hafter, -, rfl⟩ :=
                expandEntity_eq_ok h
              exact .inr (.inr ⟨e, replacement, expand, after, rfl, hdefinition, hactive,
                hdeeper, hafter, rfl⟩)

theorem active_of_expandPiece (h : expandPiece g limits deeper p piece = .ok q) :
    q.active = p.active := by
  rcases expandPiece_eq_ok h with ⟨-, rfl⟩ |
    ⟨n, -, ⟨-, rfl⟩ | ⟨_, _, _, -, -, rfl⟩ | ⟨_, _, _, _, -, -, -, -, -, rfl⟩⟩
  · rfl
  · rfl
  · rfl
  · rfl

/-- `Fails limits deeper name u p e`: the replacement text `u` of an entity is not expanded for
the reason `e`. -/
inductive Fails (limits : Limits) (deeper : Option (Text → Progress → Except Error Progress))
    (name u : Text) (p : Progress) : Error → Prop
  | recursive : name ∈ p.active → Fails limits deeper name u p (.recursiveEntity name p.active)
  | expansions :
      name ∉ p.active → limits.entityExpansions < p.expansions + 1 →
      Fails limits deeper name u p
        (.limitExceeded (.expansions (p.expansions + 1) limits.entityExpansions))
  | depth :
      name ∉ p.active → deeper = none →
      Fails limits deeper name u p
        (.limitExceeded (.depth (p.active.length + 1) limits.entityDepth))
  | inner {expand : Text → Progress → Except Error Progress} {e : Error} :
      name ∉ p.active → deeper = some expand → expand u (p.descend name) = .error e →
      Fails limits deeper name u p e
  | size {expand : Text → Progress → Except Error Progress} {after : Progress} :
      name ∉ p.active → deeper = some expand → expand u (p.descend name) = .ok after →
      limits.entityExpansionSize < after.out.bytes →
      Fails limits deeper name u p
        (.limitExceeded (.expansionSize after.out.bytes limits.entityExpansionSize))

theorem expandEntity_eq_error {replacement : Text} {e : Error}
    (h : expandEntity limits deeper name replacement p = .error e) :
    Fails limits deeper name replacement p e := by
  rcases Content.bind_eq_error_iff.1 h with henter | ⟨⟨expand, inner⟩, henter, h⟩
  · unfold enter at henter
    split at henter
    · next hactive =>
      cases henter
      exact .recursive (by simpa using hactive)
    · next hactive =>
      have hactive : name ∉ p.active := by simpa using hactive
      split at henter
      · next excess _ hcheck =>
        obtain ⟨hcount, rfl⟩ := Limits.atMost_eq_error hcheck
        cases henter
        exact .expansions hactive hcount
      · cases henter
        exact .depth hactive rfl
      · cases henter
  · obtain ⟨hactive, -, hdeeper, rfl⟩ := enter_eq_ok henter
    rcases Content.bind_eq_error_iff.1 h with hinner | ⟨after, hafter, h⟩
    · exact .inner hactive hdeeper hinner
    · rcases Content.bind_eq_error_iff.1 h with hcheck | ⟨-, -, h⟩
      · cases hsize : limits.checkExpansionSize after.out.bytes with
        | ok _ =>
            rw [hsize] at hcheck
            cases hcheck
        | error excess =>
            rw [hsize] at hcheck
            cases hcheck
            obtain ⟨hpast, rfl⟩ := Limits.atMost_eq_error hsize
            exact .size hactive hdeeper hafter hpast
      · cases h

/-- A piece whose expansion fails is a reference to an entity with a replacement text that is
not expanded. -/
theorem expandPiece_eq_error {e : Error} (h : expandPiece g limits deeper p piece = .error e) :
    ∃ n u, piece = .reference n ∧ Replacement g n u ∧
      Fails limits deeper n u (p.meet n) e := by
  cases piece with
  | literal c => cases h
  | denoted c => cases h
  | verbatim t => cases h
  | reference n =>
      unfold expandPiece at h
      cases hentity : g.entity? .general n with
      | none =>
          simp only [hentity] at h
          cases h
      | some d =>
          simp only [hentity] at h
          cases hdefinition : d.definition with
          | external id notationName =>
              simp only [hdefinition] at h
              cases h
          | literal u =>
              simp only [hdefinition] at h
              exact ⟨n, u, rfl, ⟨d, hentity, hdefinition⟩, expandEntity_eq_error h⟩

theorem exists_deeper (g : Graph) (limits : Limits) (room : Nat) :
    ∃ deeper, (∀ inner, deeper = some inner → ∃ less < room, inner = expand g limits less) ∧
      ∀ t p, expand g limits room t p = (pieces t).foldlM (expandPiece g limits deeper) p := by
  cases room with
  | zero => exact ⟨none, by simp, fun t p => rfl⟩
  | succ room =>
      refine ⟨some (expand g limits room), fun inner hinner => ?_, fun t p => rfl⟩
      cases hinner
      exact ⟨room, Nat.lt_succ_self room, rfl⟩

/-- `Kept g T P`: the steps of an expansion keep `P`, where every text that is read satisfies
`T`. -/
structure Kept (g : Graph) (T : Text → Prop) (P : Progress → Prop) : Prop where
  /-- The replacement texts are such texts. -/
  replacement {n u : Text} {e : Entity} : g.entity? .general n = some e →
    e.definition = .literal u → T u
  write {t : Text} {piece : Piece} {p : Progress} : T t → piece ∈ pieces t → P p →
    P (p.write piece.written)
  meet {t n : Text} {p : Progress} : T t → .reference n ∈ pieces t → P p → P (p.meet n)
  miss {t n : Text} {p : Progress} : T t → .reference n ∈ pieces t → P p → P (p.miss n)
  within {p : Progress} (active : List Text) (expansions : Nat) : P p →
    P (p.within active expansions)

namespace Kept

variable {T : Text → Prop} {P : Progress → Prop}

theorem expandPiece (h : Kept g T P)
    (hdeeper : ∀ expand, deeper = some expand → ∀ u p q, T u → P p → expand u p = .ok q → P q)
    (ht : T t) (hpiece : piece ∈ pieces t) (hp : P p)
    (hrun : expandPiece g limits deeper p piece = .ok q) : P q := by
  rcases expandPiece_eq_ok hrun with ⟨-, rfl⟩ | ⟨n, rfl, hreference⟩
  · exact h.write ht hpiece hp
  · rcases hreference with ⟨-, rfl⟩ | ⟨e, -, -, -, -, rfl⟩ |
      ⟨e, u, expand, after, hentity, hdefinition, -, hsome, hafter, rfl⟩
    · exact h.miss ht hpiece (h.write ht hpiece hp)
    · exact h.write ht hpiece (h.meet ht hpiece hp)
    · have hinner : P ((p.meet n).descend n) := h.within _ _ (h.meet ht hpiece hp)
      exact h.within _ _
        (hdeeper expand hsome u _ after (h.replacement hentity hdefinition) hinner hafter)

theorem foldlM (h : Kept g T P)
    (hdeeper : ∀ expand, deeper = some expand → ∀ u p q, T u → P p → expand u p = .ok q → P q)
    (ht : T t) {ps : List Piece} (hps : ∀ piece ∈ ps, piece ∈ pieces t) (hp : P p)
    (hrun : ps.foldlM (Value.expandPiece g limits deeper) p = .ok q) : P q := by
  induction ps generalizing p with
  | nil =>
      cases hrun
      exact hp
  | cons piece ps ih =>
      rw [List.foldlM_cons] at hrun
      obtain ⟨p', hpiece, hrun⟩ := Content.bind_eq_ok_iff.1 hrun
      have hp' := h.expandPiece hdeeper ht (hps piece List.mem_cons_self) hp hpiece
      exact ih (fun piece hmem => hps piece (List.mem_cons_of_mem _ hmem)) hp' hrun

/-- What the steps keep holds at the end of a run, by induction on how deep entities may be
nested. -/
theorem expand (h : Kept g T P) {room : Nat} (ht : T t) (hp : P p)
    (hrun : expand g limits room t p = .ok q) : P q := by
  induction room using Nat.strong_induction_on generalizing t p q with
  | _ room ih =>
      obtain ⟨deeper, hdeeper, heq⟩ := exists_deeper g limits room
      rw [heq] at hrun
      refine h.foldlM (fun inner hinner u p q hu hp hrun => ?_) ht (fun _ hmem => hmem) hp hrun
      obtain ⟨less, hless, rfl⟩ := hdeeper inner hinner
      exact ih less hless hu hp hrun

end Kept
end Doctype.Attribute.Value
