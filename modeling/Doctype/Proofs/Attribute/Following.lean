import Mathlib.Data.List.Perm.Subperm
import Mathlib.Data.Prod.Lex
import Mathlib.Logic.Relation
import Mathlib.Order.WellFounded
import Doctype.Proofs.Attribute.Counting

/-!
References followed without levels. The expansion of a value may be read as a recursion that
follows every reference to an internal entity that is not being expanded yet, and knows no
other end (`follow`): each call of it leaves fewer entities that are not being expanded, or as
many and less of the text (`Calls.lex`). So it ends on every graph, whatever is checked on the
way, and with the checks that bounds make it is the expansion (`normalize_descends`).
-/

namespace Doctype.Attribute.Value

open Relation

variable {g : Graph} {limits : Limits} {t u n : Text} {c : Char} {p q inner after : Progress}
  {piece : Piece}
  {active : List Text} {e : Error}

/-! ### Pieces of a text -/

def firstPiece (c : Char) (t : Text) : Piece × Text :=
  if c = '&' then (reference? t).getD (.literal c, t) else (.literal c, t)

theorem firstPiece_length (c : Char) (t : Text) : (firstPiece c t).2.length ≤ t.length := by
  unfold firstPiece
  split
  · cases h : reference? t with
    | none => exact Nat.le_refl _
    | some found => exact Nat.le_of_lt (reference?_length h)
  · exact Nat.le_refl _

theorem pieces_eq_firstPiece (c : Char) (t : Text) :
    pieces (c :: t) = (firstPiece c t).1 :: pieces (firstPiece c t).2 := by
  unfold firstPiece
  split
  · next hc =>
    subst hc
    cases h : reference? t with
    | none => exact pieces_ampersand h
    | some found => exact pieces_reference h
  · next hc => exact pieces_cons hc

def Piece.replaced? (g : Graph) : Piece → Option (Text × Text)
  | .reference n => (replacement? g n).map (n, ·)
  | _ => none

theorem Piece.replaced?_eq_some (h : piece.replaced? g = some (n, u)) :
    piece = .reference n ∧ Replacement g n u := by
  cases piece with
  | reference m =>
      obtain ⟨v, hv, heq⟩ := Option.map_eq_some_iff.1 h
      cases heq
      exact ⟨rfl, replacement?_eq_some_iff.1 hv⟩
  | _ => cases h

theorem Piece.not_replacement (h : piece.replaced? g = none) (n u : Text)
    (hn : piece = .reference n) : ¬Replacement g n u := by
  subst hn
  intro hu
  rw [replaced?, replacement?_eq_some_iff.2 hu] at h
  cases h

def Progress.pass (g : Graph) (p : Progress) : Piece → Progress
  | .reference n =>
    match g.entity? .general n with
    | none => (p.write (writeReference n)).miss n
    | some _ => (p.meet n).write (writeReference n)
  | piece => p.write piece.written

@[simp] theorem Progress.active_pass (g : Graph) (p : Progress) (piece : Piece) :
    (p.pass g piece).active = p.active := by
  cases piece with
  | reference n =>
      simp only [pass]
      cases g.entity? .general n <;> rfl
  | _ => rfl

theorem expandPiece_of_replaced?_eq_none (h : piece.replaced? g = none)
    (deeper : Option (Text → Progress → Except Error Progress)) :
    expandPiece g limits deeper p piece = .ok (p.pass g piece) := by
  cases piece with
  | reference n =>
      unfold expandPiece Progress.pass
      cases hentity : g.entity? .general n with
      | none => simp only [hentity]; rfl
      | some e =>
          cases hdefinition : e.definition with
          | external id notationName => simp only [hentity, hdefinition]; rfl
          | literal u =>
              exact absurd ⟨e, hentity, hdefinition⟩ (Piece.not_replacement h n u rfl)
  | _ => rfl

/-! ### Entities that are not being expanded -/

def internalNames (g : Graph) : List Text :=
  (g.generalEntities.map Entity.name).filter fun n => (replacement? g n).isSome

theorem mem_internalNames : n ∈ internalNames g ↔ ∃ u, Replacement g n u := by
  simp only [internalNames, List.mem_filter, Option.isSome_iff_exists,
    replacement?_eq_some_iff]
  refine ⟨And.right, fun h => ⟨?_, h⟩⟩
  obtain ⟨u, e, hentity, -⟩ := h
  obtain ⟨hmem, rfl⟩ := Table.mem_of_find?_eq_some hentity
  exact List.mem_map_of_mem hmem

def unexpanded (g : Graph) (active : List Text) : Nat :=
  ((internalNames g).filter fun n => decide (n ∉ active)).length

theorem unexpanded_concat_lt (hn : n ∈ internalNames g) (hactive : n ∉ active) :
    unexpanded g (active ++ [n]) < unexpanded g active := by
  have hfilter : ((internalNames g).filter fun m => decide (m ∉ active ++ [n])) =
      ((internalNames g).filter fun m => decide (m ∉ active)).filter fun m =>
        decide (m ≠ n) := by
    rw [List.filter_filter]
    refine List.filter_congr fun m _ => ?_
    simp [and_comm]
  have hmem : n ∈ (internalNames g).filter fun m => decide (m ∉ active) :=
    List.mem_filter.2 ⟨hn, decide_eq_true hactive⟩
  unfold unexpanded
  rw [hfilter]
  exact List.length_filter_lt_length_iff_exists.2 ⟨n, hmem, by simp⟩

/-- Entities that are being expanded one within the other: they differ, and all of them are
internal. -/
structure IsStack (g : Graph) (active : List Text) : Prop where
  nodup : active.Nodup
  internal : active ⊆ internalNames g

theorem IsStack.length_le (h : IsStack g active) : active.length ≤ (internalNames g).length :=
  (h.nodup.subperm h.internal).length_le

theorem isStack_nil (g : Graph) : IsStack g [] :=
  ⟨List.nodup_nil, List.nil_subset _⟩

theorem IsStack.concat (h : IsStack g active) (hn : n ∈ internalNames g)
    (hactive : n ∉ active) : IsStack g (active ++ [n]) where
  nodup := List.nodup_append'.2 ⟨h.nodup, List.nodup_singleton n, by simpa using hactive⟩
  internal := List.append_subset.2 ⟨h.internal, by simpa using hn⟩

/-! ### Checks -/

/-- What is checked while a value is expanded: how many entities were expanded, how deep they
are nested, and the size of what was written. -/
structure Checks where
  expansions : Nat → Except Limits.Excess Unit
  depth : Nat → Except Limits.Excess Unit
  size : Nat → Except Limits.Excess Unit

namespace Checks

def ofLimits (limits : Limits) : Checks :=
  ⟨limits.checkExpansions, limits.checkDepth, limits.checkExpansionSize⟩

def unbounded : Checks :=
  ⟨fun _ => .ok (), fun _ => .ok (), fun _ => .ok ()⟩

def enter (checks : Checks) (name : Text) (p : Progress) : Except Error Progress :=
  if p.active.contains name then .error (.recursiveEntity name p.active)
  else
    match checks.expansions (p.expansions + 1), checks.depth (p.active.length + 1) with
    | .error excess, _ => .error (.limitExceeded excess)
    | .ok (), .error excess => .error (.limitExceeded excess)
    | .ok (), .ok () => .ok (p.descend name)

def leave (checks : Checks) (p after : Progress) : Except Error Progress :=
  match checks.size after.out.bytes with
  | .error excess => .error (.limitExceeded excess)
  | .ok () => .ok (after.within p.active after.expansions)

theorem enter_eq_ok {checks : Checks} (h : checks.enter n p = .ok inner) :
    n ∉ p.active ∧ inner = p.descend n := by
  unfold enter at h
  split at h
  · cases h
  · next hactive =>
    split at h
    · cases h
    · cases h
    · cases h
      exact ⟨by simpa using hactive, rfl⟩

/-- An entity is not entered where it is being expanded already, or where a check does not
pass. -/
theorem enter_eq_error {checks : Checks} (h : checks.enter n p = .error e) :
    n ∈ p.active ∧ e = .recursiveEntity n p.active ∨
    n ∉ p.active ∧ ∃ excess, e = .limitExceeded excess ∧
      (checks.expansions (p.expansions + 1) = .error excess ∨
        checks.depth (p.active.length + 1) = .error excess) := by
  unfold enter at h
  split at h
  · next hactive =>
    cases h
    exact .inl ⟨by simpa using hactive, rfl⟩
  · next hactive =>
    have hactive : n ∉ p.active := by simpa using hactive
    split at h
    · next hcheck =>
      cases h
      exact .inr ⟨hactive, _, rfl, .inl hcheck⟩
    · next hcheck =>
      cases h
      exact .inr ⟨hactive, _, rfl, .inr hcheck⟩
    · cases h

theorem leave_eq_ok {checks : Checks} (h : checks.leave p after = .ok q) :
    q = after.within p.active after.expansions := by
  unfold leave at h
  split at h
  · cases h
  · cases h
    rfl

theorem leave_eq_error {checks : Checks} (h : checks.leave p after = .error e) :
    ∃ excess, e = .limitExceeded excess ∧ checks.size after.out.bytes = .error excess := by
  unfold leave at h
  split at h
  · next hcheck =>
    cases h
    exact ⟨_, rfl, hcheck⟩
  · cases h

end Checks

variable {checks : Checks}

/-! ### The recursion -/

theorem lex_behind (c : Char) (t : Text) (h : q.active = p.active) :
    Prod.Lex (· < ·) (· < ·) (unexpanded g q.active, (firstPiece c t).2.length)
      (unexpanded g p.active, (c :: t).length) := by
  rw [h]
  exact Prod.Lex.right _ (Nat.lt_succ_of_le (firstPiece_length c t))

theorem lex_inside (hreplaced : piece.replaced? g = some (n, u))
    (henter : checks.enter n (p.meet n) = .ok inner) (k m : Nat) :
    Prod.Lex (· < ·) (· < ·) (unexpanded g inner.active, k) (unexpanded g p.active, m) := by
  obtain ⟨hactive, rfl⟩ := Checks.enter_eq_ok henter
  obtain ⟨-, hu⟩ := Piece.replaced?_eq_some hreplaced
  exact Prod.Lex.left _ _ (unexpanded_concat_lt (mem_internalNames.2 ⟨u, hu⟩) hactive)

/-- Expands a text by following the references in it: the replacement text of an entity is
expanded in its place, and what is left of the text behind it. What ends this is that there are
only so many entities to be entered. -/
def follow (checks : Checks) (g : Graph) (t : Text) (p : Progress) : Except Error Progress :=
  match t with
  | [] => .ok p
  | c :: t =>
    match _hreplaced : (firstPiece c t).1.replaced? g with
    | none => follow checks g (firstPiece c t).2 (p.pass g (firstPiece c t).1)
    | some (n, u) =>
      match _henter : checks.enter n (p.meet n) with
      | .error e => .error e
      | .ok inner =>
        match follow checks g u inner with
        | .error e => .error e
        | .ok after =>
          match _hleave : checks.leave p after with
          | .error e => .error e
          | .ok next => follow checks g (firstPiece c t).2 next
termination_by (unexpanded g p.active, t.length)
decreasing_by
  · exact lex_behind c t (Progress.active_pass g p _)
  · exact lex_inside _hreplaced _henter _ _
  · obtain rfl := Checks.leave_eq_ok _hleave
    exact lex_behind c t rfl

theorem follow_nil (checks : Checks) (g : Graph) (p : Progress) :
    follow checks g [] p = .ok p := by
  rw [follow]

theorem follow_of_not_replaced (h : (firstPiece c t).1.replaced? g = none) (checks : Checks)
    (p : Progress) :
    follow checks g (c :: t) p =
      follow checks g (firstPiece c t).2 (p.pass g (firstPiece c t).1) := by
  rw [follow]
  split
  · rfl
  · next h' =>
    rw [h] at h'
    cases h'

theorem follow_of_replaced (h : (firstPiece c t).1.replaced? g = some (n, u))
    (checks : Checks) (p : Progress) :
    follow checks g (c :: t) p = (do
      let inner ← checks.enter n (p.meet n)
      let after ← follow checks g u inner
      let next ← checks.leave p after
      follow checks g (firstPiece c t).2 next) := by
  rw [follow]
  split
  · next h' =>
    rw [h] at h'
    cases h'
  · next h' =>
    rw [h] at h'
    cases h'
    cases checks.enter n (p.meet n) with
    | error e => rfl
    | ok inner =>
        simp only [Except.bind, bind]
        cases follow checks g u inner with
        | error e => rfl
        | ok after =>
            dsimp only
            cases checks.leave p after <;> rfl

/-! ### The calls -/

/-- The calls that a call of the recursion makes: for what is left behind a piece that is not
replaced, for the replacement text of an entity, and for what is left behind the entity. -/
inductive Calls (checks : Checks) (g : Graph) : Text × Progress → Text × Progress → Prop
  | behind {c : Char} {t : Text} {p : Progress} : (firstPiece c t).1.replaced? g = none →
      Calls checks g (c :: t, p) ((firstPiece c t).2, p.pass g (firstPiece c t).1)
  | inside {c : Char} {t n u : Text} {p inner : Progress} :
      (firstPiece c t).1.replaced? g = some (n, u) →
      checks.enter n (p.meet n) = .ok inner → Calls checks g (c :: t, p) (u, inner)
  | after {c : Char} {t n u : Text} {p inner after next : Progress} :
      (firstPiece c t).1.replaced? g = some (n, u) → checks.enter n (p.meet n) = .ok inner →
        follow checks g u inner = .ok after → checks.leave p after = .ok next →
          Calls checks g (c :: t, p) ((firstPiece c t).2, next)

theorem Calls.active_eq (h : Calls checks g (t, p) (u, q)) :
    q.active = p.active ∨ ∃ n ∈ internalNames g, n ∉ p.active ∧
      q.active = p.active ++ [n] := by
  cases h with
  | behind _ => exact .inl (Progress.active_pass g p _)
  | inside hreplaced henter =>
      obtain ⟨hactive, rfl⟩ := Checks.enter_eq_ok henter
      obtain ⟨-, hu⟩ := Piece.replaced?_eq_some hreplaced
      exact .inr ⟨_, mem_internalNames.2 ⟨_, hu⟩, hactive, rfl⟩
  | after _ _ _ hleave =>
      obtain rfl := Checks.leave_eq_ok hleave
      exact .inl rfl

/-- A call leaves fewer entities that are not being expanded, or as many and less of the
text. -/
theorem Calls.lex (h : Calls checks g (t, p) (u, q)) :
    Prod.Lex (· < ·) (· < ·) (unexpanded g q.active, u.length)
      (unexpanded g p.active, t.length) := by
  cases h with
  | behind _ => exact lex_behind _ _ (Progress.active_pass g p _)
  | inside hreplaced henter => exact lex_inside hreplaced henter _ _
  | after _ _ _ hleave =>
      obtain rfl := Checks.leave_eq_ok hleave
      exact lex_behind _ _ rfl

theorem wellFounded_calls (checks : Checks) (g : Graph) :
    WellFounded fun b a => Calls checks g a b :=
  Subrelation.wf (fun h => h.lex)
    (InvImage.wf (fun a : Text × Progress => (unexpanded g a.2.active, a.1.length))
      (WellFounded.prod_lex Nat.lt_wfRel.wf Nat.lt_wfRel.wf))

theorem Calls.induction (checks : Checks) (g : Graph) {motive : Text → Progress → Prop}
    (step : ∀ t p, (∀ u q, Calls checks g (t, p) (u, q) → motive u q) → motive t p)
    (t : Text) (p : Progress) : motive t p :=
  (wellFounded_calls checks g).induction (C := fun a => motive a.1 a.2) (t, p)
    fun a ih => step a.1 a.2 fun u q h => ih (u, q) h

theorem IsStack.call (hp : IsStack g p.active) (h : Calls checks g (t, p) (u, q)) :
    IsStack g q.active := by
  rcases h.active_eq with hsame | ⟨n, hn, hnew, hactive⟩
  · exact hsame ▸ hp
  · exact hactive ▸ hp.concat hn hnew

/-- The invariant of the recursion: what is being expanded is a stack at every call. -/
theorem IsStack.calls {a b : Text × Progress} (ha : IsStack g a.2.active)
    (h : ReflTransGen (Calls checks g) a b) : IsStack g b.2.active := by
  induction h with
  | refl => exact ha
  | tail _ hcall ih => exact ih.call hcall

/-- What was entered is left again: behind a text the stack is what it was before. -/
theorem active_of_follow (h : follow checks g t p = .ok q) : q.active = p.active := by
  induction t, p using Calls.induction checks g with
  | step t p ih =>
      cases t with
      | nil =>
          rw [follow_nil] at h
          cases h
          rfl
      | cons c t =>
          cases hreplaced : (firstPiece c t).1.replaced? g with
          | none =>
              rw [follow_of_not_replaced hreplaced] at h
              exact (ih _ _ (.behind hreplaced) h).trans (Progress.active_pass g p _)
          | some found =>
              rw [follow_of_replaced hreplaced] at h
              obtain ⟨inner, henter, h⟩ := Content.bind_eq_ok_iff.1 h
              obtain ⟨after, hafter, h⟩ := Content.bind_eq_ok_iff.1 h
              obtain ⟨next, hleave, h⟩ := Content.bind_eq_ok_iff.1 h
              obtain rfl := Checks.leave_eq_ok hleave
              have hrest := ih _ _ (.after hreplaced henter hafter hleave) h
              exact hrest

/-! ### Where the recursion fails -/

/-- What makes a call fail by itself: the first piece of its text refers to an entity that is
not entered, or not left. -/
inductive FailsAt (checks : Checks) (g : Graph) : Text × Progress → Error → Prop
  | enter {c : Char} {t n u : Text} {p : Progress} {e : Error} :
      (firstPiece c t).1.replaced? g = some (n, u) →
      checks.enter n (p.meet n) = .error e → FailsAt checks g (c :: t, p) e
  | leave {c : Char} {t n u : Text} {p inner after : Progress} {e : Error} :
      (firstPiece c t).1.replaced? g = some (n, u) → checks.enter n (p.meet n) = .ok inner →
        follow checks g u inner = .ok after → checks.leave p after = .error e →
        FailsAt checks g (c :: t, p) e

/-- If the recursion fails, then one of its calls fails by itself. -/
theorem exists_failsAt (h : follow checks g t p = .error e) :
    ∃ a, ReflTransGen (Calls checks g) (t, p) a ∧ FailsAt checks g a e := by
  induction t, p using Calls.induction checks g with
  | step t p ih =>
      have step {u q} (hcall : Calls checks g (t, p) (u, q))
          (h : follow checks g u q = .error e) :
          ∃ a, ReflTransGen (Calls checks g) (t, p) a ∧ FailsAt checks g a e := by
        obtain ⟨a, ha, hfails⟩ := ih u q hcall h
        exact ⟨a, .head hcall ha, hfails⟩
      cases t with
      | nil =>
          rw [follow_nil] at h
          cases h
      | cons c t =>
          cases hreplaced : (firstPiece c t).1.replaced? g with
          | none =>
              rw [follow_of_not_replaced hreplaced] at h
              exact step (.behind hreplaced) h
          | some found =>
              rw [follow_of_replaced hreplaced] at h
              rcases Content.bind_eq_error_iff.1 h with henter | ⟨inner, henter, h⟩
              · exact ⟨_, .refl, .enter hreplaced henter⟩
              rcases Content.bind_eq_error_iff.1 h with hinner | ⟨after, hafter, h⟩
              · exact step (.inside hreplaced henter) hinner
              rcases Content.bind_eq_error_iff.1 h with hleave | ⟨next, hleave, h⟩
              · exact ⟨_, .refl, .leave hreplaced henter hafter hleave⟩
              · exact step (.after hreplaced henter hafter hleave) h

theorem follow_unbounded_eq_error (h : follow .unbounded g t p = .error e) :
    ∃ a n, ReflTransGen (Calls .unbounded g) (t, p) a ∧ n ∈ a.2.active ∧
      e = .recursiveEntity n a.2.active := by
  obtain ⟨a, ha, hfails⟩ := exists_failsAt h
  cases hfails with
  | enter _ henter =>
      rcases Checks.enter_eq_error henter with ⟨hactive, rfl⟩ | ⟨-, excess, -, hcheck | hcheck⟩
      · exact ⟨_, _, ha, hactive, rfl⟩
      · cases hcheck
      · cases hcheck
  | leave _ _ _ hleave =>
      obtain ⟨excess, -, hcheck⟩ := Checks.leave_eq_error hleave
      cases hcheck

/-- The bound on the depth is passed only if it is less than the number of internal
entities. -/
theorem follow_eq_depth {depth bound : Nat} (hp : IsStack g p.active)
    (h : follow (.ofLimits limits) g t p = .error (.limitExceeded (.depth depth bound))) :
    bound = limits.entityDepth ∧ bound < depth ∧ depth ≤ (internalNames g).length := by
  obtain ⟨a, ha, hfails⟩ := exists_failsAt h
  cases hfails with
  | @enter _ _ n u q _ hreplaced henter =>
      obtain ⟨-, hu⟩ := Piece.replaced?_eq_some hreplaced
      rcases Checks.enter_eq_error henter
        with ⟨-, heq⟩ | ⟨hactive, excess, heq, hcheck | hcheck⟩
      · cases heq
      · obtain ⟨-, rfl⟩ := Limits.atMost_eq_error hcheck
        cases heq
      · obtain ⟨hlt, rfl⟩ := Limits.atMost_eq_error hcheck
        cases heq
        have hstack : IsStack g (q.active ++ [n]) :=
          (hp.calls (a := (t, p)) ha).concat (mem_internalNames.2 ⟨u, hu⟩) hactive
        have hlength := hstack.length_le
        rw [List.length_append] at hlength
        exact ⟨rfl, hlt, hlength⟩
  | leave _ _ _ hleave =>
      obtain ⟨excess, heq, hcheck⟩ := Checks.leave_eq_error hleave
      obtain ⟨-, rfl⟩ := Limits.atMost_eq_error hcheck
      cases heq

/-! ### The expansion -/

theorem bind_congr_of_ok {ε α β : Type} {x : Except ε α} {f f' : α → Except ε β}
    (h : ∀ a, x = .ok a → f a = f' a) : x >>= f = x >>= f' := by
  cases x with
  | error e => rfl
  | ok a => exact h a rfl

def below (g : Graph) (limits : Limits) :
    Nat → Option (Text → Progress → Except Error Progress)
  | 0 => none
  | room + 1 => some (expand g limits room)

theorem expand_eq_foldlM (g : Graph) (limits : Limits) (room : Nat) (t : Text) (p : Progress) :
    expand g limits room t p =
      (pieces t).foldlM (expandPiece g limits (below g limits room)) p := by
  cases room <;> rfl

theorem expand_nil (room : Nat) : expand g limits room [] p = .ok p := by
  rw [expand_eq_foldlM, pieces_nil]
  rfl

theorem expand_cons (room : Nat) :
    expand g limits room (c :: t) p =
      expandPiece g limits (below g limits room) p (firstPiece c t).1 >>=
        expand g limits room (firstPiece c t).2 := by
  rw [expand_eq_foldlM, pieces_eq_firstPiece, List.foldlM_cons]
  exact congrArg _ (funext fun q => (expand_eq_foldlM g limits room _ q).symm)

theorem below_entityDepth (g : Graph) (limits : Limits) (depth : Nat) :
    (∃ excess, limits.checkDepth (depth + 1) = .error excess ∧
      excess = .depth (depth + 1) limits.entityDepth ∧
      below g limits (limits.entityDepth - depth) = none) ∨
    limits.checkDepth (depth + 1) = .ok () ∧
      below g limits (limits.entityDepth - depth) =
        some (expand g limits (limits.entityDepth - (depth + 1))) := by
  cases hcheck : limits.checkDepth (depth + 1) with
  | error excess =>
      obtain ⟨hlt, rfl⟩ := Limits.atMost_eq_error hcheck
      have hroom : limits.entityDepth - depth = 0 := by omega
      exact .inl ⟨_, rfl, rfl, by rw [hroom, below]⟩
  | ok _ =>
      have hle := Limits.atMost_eq_ok hcheck
      have hroom : limits.entityDepth - depth = limits.entityDepth - (depth + 1) + 1 := by
        omega
      exact .inr ⟨rfl, by rw [hroom, below]⟩

/-- The levels that are left are what the bound leaves behind the entities that are being
expanded. -/
theorem enter_below (g : Graph) (limits : Limits) (n : Text) (p : Progress) :
    enter limits (below g limits (limits.entityDepth - p.active.length)) n p =
      (fun inner => (expand g limits (limits.entityDepth - inner.active.length), inner)) <$>
        (Checks.ofLimits limits).enter n p := by
  by_cases hactive : p.active.contains n = true
  · simp only [enter, Checks.enter, hactive, if_true]
    rfl
  · simp only [enter, Checks.enter, Checks.ofLimits, hactive]
    cases limits.checkExpansions (p.expansions + 1) with
    | error excess => rfl
    | ok _ =>
        rcases below_entityDepth g limits p.active.length
          with ⟨_, hcheck, rfl, hbelow⟩ | ⟨hcheck, hbelow⟩
        · rw [hbelow, hcheck]
          rfl
        · rw [hbelow, hcheck]
          have hlength : (p.descend n).active.length = p.active.length + 1 :=
            List.length_append
          rw [← hlength]
          rfl

theorem expandEntity_below (g : Graph) (limits : Limits) (n u : Text) (p : Progress) :
    expandEntity limits (below g limits (limits.entityDepth - p.active.length)) n u p = (do
      let inner ← (Checks.ofLimits limits).enter n p
      let after ← expand g limits (limits.entityDepth - inner.active.length) u inner
      (Checks.ofLimits limits).leave p after) := by
  rw [expandEntity, enter_below]
  cases (Checks.ofLimits limits).enter n p with
  | error e => rfl
  | ok inner =>
      refine bind_congr_of_ok (x := expand g limits _ u inner) fun after _ => ?_
      simp only [Checks.leave, Checks.ofLimits]
      cases limits.checkExpansionSize after.out.bytes <;> rfl

/-- With the checks that the bounds make, the recursion is the expansion. -/
theorem expand_eq_follow (g : Graph) (limits : Limits) (t : Text) (p : Progress) :
    expand g limits (limits.entityDepth - p.active.length) t p =
      follow (.ofLimits limits) g t p := by
  induction t, p using Calls.induction (.ofLimits limits) g with
  | step t p ih =>
      cases t with
      | nil => rw [expand_nil, follow_nil]
      | cons c t =>
          rw [expand_cons]
          cases hreplaced : (firstPiece c t).1.replaced? g with
          | none =>
              have hrest := ih _ _ (.behind hreplaced)
              rw [Progress.active_pass] at hrest
              rw [expandPiece_of_replaced?_eq_none hreplaced,
                follow_of_not_replaced hreplaced, ← hrest]
              rfl
          | some found =>
              obtain ⟨n, u⟩ := found
              obtain ⟨hpiece, hu⟩ := Piece.replaced?_eq_some hreplaced
              have hentity := expandEntity_below g limits n u (p.meet n)
              rw [follow_of_replaced hreplaced, hpiece, expandPiece_of_replacement hu]
              refine (congrArg (· >>= _) hentity).trans ?_
              rw [bind_assoc]
              refine bind_congr_of_ok fun inner henter => ?_
              rw [bind_assoc, ih _ _ (.inside hreplaced henter)]
              refine bind_congr_of_ok fun after hafter =>
                bind_congr_of_ok fun next hleave => ?_
              have hrest := ih _ _ (.after hreplaced henter hafter hleave)
              obtain rfl := Checks.leave_eq_ok hleave
              exact hrest

/-! ### Values -/

/-- What makes the recursion over a text end, whatever is checked on the way. -/
structure Descends (checks : Checks) (g : Graph) (raw : Text) : Prop where
  /-- What is being expanded at a call are internal entities, none of them twice. -/
  stack {t : Text} {p : Progress} : ReflTransGen (Calls checks g) (raw, .start) (t, p) →
    IsStack g p.active
  /-- So no more than all internal entities are nested. -/
  depth_le {t : Text} {p : Progress} :
    ReflTransGen (Calls checks g) (raw, .start) (t, p) →
    p.active.length ≤ (internalNames g).length
  /-- Taking off the last entity restores what was being expanded before it was entered. -/
  restored {t u n : Text} {p inner after : Progress} :
    ReflTransGen (Calls checks g) (raw, .start) (t, p) →
    checks.enter n p = .ok inner → follow checks g u inner = .ok after →
    after.active.dropLast = p.active
  /-- A call leaves fewer entities that are not being expanded, or as many and less of the
  text. -/
  lex {t u : Text} {p q : Progress} : Calls checks g (t, p) (u, q) →
    Prod.Lex (· < ·) (· < ·) (unexpanded g q.active, u.length)
      (unexpanded g p.active, t.length)
  wellFounded : WellFounded fun b a => Calls checks g a b

theorem descends (checks : Checks) (g : Graph) (raw : Text) : Descends checks g raw where
  stack h := (isStack_nil g).calls (a := (raw, .start)) h
  depth_le h := ((isStack_nil g).calls (a := (raw, .start)) h).length_le
  restored _ henter hafter := by
    obtain ⟨-, rfl⟩ := Checks.enter_eq_ok henter
    rw [active_of_follow hafter]
    exact List.dropLast_concat
  lex h := h.lex
  wellFounded := wellFounded_calls checks g

/-- Values are normalized on every graph, whatever the bounds are: the normal form is what a
recursion gives that descends with any checks, and without any it fails only for an entity that
is met while it is being expanded. The bound on the depth is passed only if there are more
internal entities. -/
theorem normalize_descends (g : Graph) (raw : Text) :
    (∀ limits isTokenized, normalize g limits raw isTokenized = (do
      let p ← follow (.ofLimits limits) g raw .start
      let text := p.out.toText
      return ⟨if isTokenized then collapse text else text, p.references, p.undeclared⟩)) ∧
    (∀ checks, Descends checks g raw) ∧
    (∀ e, follow .unbounded g raw .start = .error e →
      ∃ n active, IsStack g active ∧ n ∈ active ∧ e = .recursiveEntity n active) ∧
    ∀ limits isTokenized depth bound,
      normalize g limits raw isTokenized = .error (.limitExceeded (.depth depth bound)) →
        bound = limits.entityDepth ∧ bound < depth ∧ depth ≤ (internalNames g).length := by
  have heq (limits : Limits) : expand g limits limits.entityDepth raw .start =
      follow (.ofLimits limits) g raw .start :=
    expand_eq_follow g limits raw .start
  refine ⟨fun limits isTokenized => ?_, fun checks => descends checks g raw, fun e h => ?_,
    fun limits isTokenized depth bound h => ?_⟩
  · rw [normalize, heq]
  · obtain ⟨a, n, ha, hn, rfl⟩ := follow_unbounded_eq_error h
    exact ⟨n, a.2.active, (descends .unbounded g raw).stack ha, hn, rfl⟩
  · rw [normalize, heq] at h
    rcases Content.bind_eq_error_iff.1 h with h | ⟨p, -, h⟩
    · exact follow_eq_depth (isStack_nil g) h
    · cases h

end Doctype.Attribute.Value
