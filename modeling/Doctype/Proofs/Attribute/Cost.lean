import Mathlib.Algebra.GroupWithZero.Nat
import Mathlib.Data.List.Perm.Subperm
import Doctype.Proofs.Attribute.Expansion
import Doctype.Proofs.Graph.Table

/-!
Bounds that suffice. An entity that is being expanded is not entered again, so entities are not
nested deeper than there are entities, and what an expansion may cost can be told in advance
(`cost`). With bounds beyond both, no value is refused for a bound, also where entities are
recursive (`normalize_ne_limitExceeded`).
-/

namespace Doctype.Attribute.Value

variable {g : Graph} {limits : Limits} {t u n : Text} {p q : Progress} {piece : Piece}
  {ps : List Piece}
  {inner : Text → Nat} {active : List Text}
    {deeper : Option (Text → Progress → Except Error Progress)}

def replacement? (g : Graph) (n : Text) : Option Text :=
  match (g.entity? .general n).map Entity.definition with
  | some (.literal u) => some u
  | _ => none

/-- What the expansion of a piece may cost, in expansions as well as in bytes; `inner` tells it
for replacement texts. -/
def Piece.cost (g : Graph) (inner : Text → Nat) (p : Piece) : Nat :=
  Text.size p.written +
    match p with
    | .reference n => ((replacement? g n).map (inner · + 1)).getD 0
    | _ => 0

/-- What the expansion of a text may cost where entities are nested at most `room` levels
deeper. -/
def cost (g : Graph) : Nat → Text → Nat
  | 0, t => ((pieces t).map (Piece.cost g fun _ => 0)).sum
  | room + 1, t => ((pieces t).map (Piece.cost g (cost g room))).sum

theorem size_written_le (g : Graph) (inner : Text → Nat) (piece : Piece) :
    Text.size piece.written ≤ piece.cost g inner :=
  Nat.le_add_right _ _

theorem Replacement.cost_lt (hu : Replacement g n u) (inner : Text → Nat) :
    inner u < (Piece.reference n).cost g inner := by
  obtain ⟨e, hsome, hliteral⟩ := hu
  have hreplacement : replacement? g n = some u := by simp [replacement?, hsome, hliteral]
  simp only [Piece.cost, hreplacement, Option.map_some, Option.getD_some]
  omega

/-! ### Runs within a cost -/

/-- `Affords limits c p`: the bounds leave room for `c` more expansions and for `c` more
bytes. -/
structure Affords (limits : Limits) (c : Nat) (p : Progress) : Prop where
  expansions : p.expansions + c ≤ limits.entityExpansions
  size : p.out.bytes + c ≤ limits.entityExpansionSize

/-- `Spends c p q`: from `p` to `q` there are at most `c` more expansions, and at most `c` more
bytes. -/
structure Spends (c : Nat) (p q : Progress) : Prop where
  expansions : q.expansions ≤ p.expansions + c
  size : q.out.bytes ≤ p.out.bytes + c

/-- `Within c p run`: the run passes no bound, and if it ends well, it has cost at most `c`. -/
structure Within (c : Nat) (p : Progress) (run : Except Error Progress) : Prop where
  noExcess (excess : Limits.Excess) : run ≠ .error (.limitExceeded excess)
  spends {q : Progress} : run = .ok q → Spends c p q

/-- `Expandable g limits deeper inner active`: while `active` are being expanded, the
replacement texts of other entities can be expanded, within what `inner` tells. -/
def Expandable (g : Graph) (limits : Limits)
    (deeper : Option (Text → Progress → Except Error Progress)) (inner : Text → Nat)
    (active : List Text) : Prop :=
  ∀ n u, Replacement g n u → n ∉ active → ∃ expand, deeper = some expand ∧
    ∀ p, p.active = active ++ [n] → Affords limits (inner u) p →
    Within (inner u) p (expand u p)

@[simp] theorem bytes_append (b : Buffer) (t : Text) :
    (b.append t).bytes = b.bytes + Text.size t := by
  rw [Buffer.bytes_eq_size, Buffer.toText_append, Text.size_append, ← Buffer.bytes_eq_size]

/-- The replacement text of an entity can be expanded for less than a reference to the
entity. -/
theorem Expandable.descend (hdeeper : Expandable g limits deeper inner p.active)
    (hu : Replacement g n u) (hn : n ∉ p.active)
    (hp : Affords limits ((Piece.reference n).cost g inner) p) :
    ∃ expand, deeper = some expand ∧
      Within (inner u) ((p.meet n).descend n) (expand u ((p.meet n).descend n)) := by
  obtain ⟨expand, hexpand, hwithin⟩ := hdeeper n u hu hn
  have hcost := hu.cost_lt inner
  refine ⟨expand, hexpand, hwithin _ rfl ⟨?_, ?_⟩⟩
  · have := hp.expansions
    change p.expansions + 1 + inner u ≤ limits.entityExpansions
    omega
  · have := hp.size
    change p.out.bytes + inner u ≤ limits.entityExpansionSize
    omega

theorem spends_expandPiece (hdeeper : Expandable g limits deeper inner p.active)
    (hp : Affords limits (piece.cost g inner) p)
    (h : expandPiece g limits deeper p piece = .ok q) : Spends (piece.cost g inner) p q := by
  have hwritten := size_written_le g inner piece
  rcases expandPiece_eq_ok h
    with ⟨-, rfl⟩ | ⟨n, rfl, ⟨-, rfl⟩ | ⟨e, id, notationName, -, -, rfl⟩ |
    ⟨e, u, expand, after, hentity, hliteral, hn, hsome, hafter, rfl⟩⟩
  · exact ⟨Nat.le_add_right _ _, by rw [Progress.write, bytes_append]; omega⟩
  · exact ⟨Nat.le_add_right _ _, (bytes_append _ _).trans_le (Nat.add_le_add_left hwritten _)⟩
  · exact ⟨Nat.le_add_right _ _, (bytes_append _ _).trans_le (Nat.add_le_add_left hwritten _)⟩
  · have hu : Replacement g n u := ⟨e, hentity, hliteral⟩
    obtain ⟨_, hexpand, hwithin⟩ := hdeeper.descend hu hn hp
    cases hsome.symm.trans hexpand
    have hcost := hu.cost_lt inner
    have hexpansions : after.expansions ≤ p.expansions + 1 + inner u :=
      (hwithin.spends hafter).expansions
    have hsize : after.out.bytes ≤ p.out.bytes + inner u := (hwithin.spends hafter).size
    refine ⟨?_, ?_⟩
    · change after.expansions ≤ _
      omega
    · change after.out.bytes ≤ _
      omega

theorem within_expandPiece (hdeeper : Expandable g limits deeper inner p.active)
    (hp : Affords limits (piece.cost g inner) p) :
    Within (piece.cost g inner) p (expandPiece g limits deeper p piece) where
  noExcess excess h := by
    obtain ⟨n, u, rfl, hu, hfails⟩ := expandPiece_eq_error h
    have hcost := hu.cost_lt inner
    cases hfails with
    | expansions _ hcount =>
        have hexpansions := hp.expansions
        change limits.entityExpansions < p.expansions + 1 at hcount
        omega
    | depth hn hnone =>
        obtain ⟨expand, hexpand, -⟩ := hdeeper.descend hu hn hp
        cases hnone.symm.trans hexpand
    | inner hn hsome hinner =>
        obtain ⟨expand, hexpand, hwithin⟩ := hdeeper.descend hu hn hp
        cases hsome.symm.trans hexpand
        exact hwithin.noExcess _ hinner
    | size hn hsome hafter hpast =>
        obtain ⟨expand, hexpand, hwithin⟩ := hdeeper.descend hu hn hp
        cases hsome.symm.trans hexpand
        have hsize := hp.size
        have hbytes : _ ≤ p.out.bytes + inner u := (hwithin.spends hafter).size
        omega
  spends := spends_expandPiece hdeeper hp

theorem within_foldlM (hdeeper : Expandable g limits deeper inner p.active)
    (hp : Affords limits (ps.map (Piece.cost g inner)).sum p) :
    Within (ps.map (Piece.cost g inner)).sum p
      (ps.foldlM (expandPiece g limits deeper) p) := by
  induction ps generalizing p with
  | nil =>
      refine ⟨nofun, fun h => ?_⟩
      cases h
      exact ⟨Nat.le_add_right _ _, Nat.le_add_right _ _⟩
  | cons piece ps ih =>
      rw [List.map_cons, List.sum_cons] at hp ⊢
      have hpiece : Within (piece.cost g inner) p (expandPiece g limits deeper p piece) :=
        within_expandPiece hdeeper ⟨by have := hp.expansions; omega, by have := hp.size; omega⟩
      -- what is left for the other pieces, once this one is expanded
      have hrest {p' : Progress} (h : expandPiece g limits deeper p piece = .ok p') :
          Within (ps.map (Piece.cost g inner)).sum p'
            (ps.foldlM (expandPiece g limits deeper) p') := by
        obtain ⟨hexpansions, hsize⟩ := hpiece.spends h
        refine ih (active_of_expandPiece h ▸ hdeeper) ⟨?_, ?_⟩
        · have := hp.expansions
          omega
        · have := hp.size
          omega
      rw [List.foldlM_cons]
      refine ⟨fun excess h => ?_, fun h => ?_⟩
      · rcases Content.bind_eq_error_iff.1 h with h | ⟨p', h, herror⟩
        · exact hpiece.noExcess excess h
        · exact (hrest h).noExcess excess herror
      · obtain ⟨p', h, hok⟩ := Content.bind_eq_ok_iff.1 h
        obtain ⟨hexpansions, hsize⟩ := hpiece.spends h
        obtain ⟨hexpansions', hsize'⟩ := (hrest h).spends hok
        exact ⟨by omega, by omega⟩

/-! ### Nesting -/

/-- `Room g room active`: the entities being expanded are declared and differ, and the others
can be nested in them even if all are. -/
structure Room (g : Graph) (room : Nat) (active : List Text) : Prop where
  nodup : active.Nodup
  declared : active ⊆ g.generalEntities.map Entity.name
  le : g.generalEntities.length ≤ room + active.length

variable {room : Nat}

theorem Room.nodup_concat (h : Room g room active) (hn : n ∉ active) : (active ++ [n]).Nodup :=
  List.nodup_append'.2 ⟨h.nodup, List.nodup_singleton n, by simpa using hn⟩

theorem Room.concat_subset (h : Room g room active) (hu : Replacement g n u) :
    active ++ [n] ⊆ g.generalEntities.map Entity.name := by
  obtain ⟨e, hsome, -⟩ := hu
  obtain ⟨hmem, rfl⟩ := Table.mem_of_find?_eq_some hsome
  exact List.append_subset.2 ⟨h.declared, by simpa using ⟨e, hmem, rfl⟩⟩

theorem Room.pos (h : Room g room active) (hu : Replacement g n u) (hn : n ∉ active) :
    0 < room := by
  have hlength := ((h.nodup_concat hn).subperm (h.concat_subset hu)).length_le
  have hle := h.le
  rw [List.length_append, List.length_singleton, List.length_map] at hlength
  omega

theorem Room.descend (h : Room g (room + 1) active) (hu : Replacement g n u)
    (hn : n ∉ active) : Room g room (active ++ [n]) where
  nodup := h.nodup_concat hn
  declared := h.concat_subset hu
  le := by
    have hle := h.le
    rw [List.length_append, List.length_singleton]
    omega

/-- An expansion with room for all entities costs what was told, by induction on the room. -/
theorem within_expand {k : Nat} (hk : k ≤ room) (hroom : Room g k p.active)
    (hp : Affords limits (cost g k t) p) :
    Within (cost g k t) p (expand g limits room t p) := by
  induction k generalizing room t p with
  | zero =>
      obtain ⟨deeper, -, heq⟩ := exists_deeper g limits room
      rw [heq]
      exact within_foldlM (fun n u hu hn => absurd (hroom.pos hu hn) (Nat.lt_irrefl 0)) hp
  | succ k ih =>
      cases room with
      | zero => exact absurd hk (Nat.not_succ_le_zero k)
      | succ room =>
          refine within_foldlM (fun n u hu hn => ⟨_, rfl, fun p hactive hp => ?_⟩) hp
          exact ih (Nat.le_of_succ_le_succ hk) (hactive ▸ hroom.descend hu hn) hp

/-- Bounds that suffice for a value: entities may be nested as deep as there are entities, and
what the value may cost is allowed. -/
theorem normalize_ne_limitExceeded {raw : Text}
    (hdepth : g.generalEntities.length ≤ limits.entityDepth)
    (hexpansions : cost g g.generalEntities.length raw ≤ limits.entityExpansions)
    (hsize : cost g g.generalEntities.length raw ≤ limits.entityExpansionSize)
    (isTokenized : Bool) (excess : Limits.Excess) :
    normalize g limits raw isTokenized ≠ .error (.limitExceeded excess) := by
  have hroom : Room g g.generalEntities.length Progress.start.active :=
    ⟨List.nodup_nil, List.nil_subset _, Nat.le_add_right _ _⟩
  have hstart : Affords limits (cost g g.generalEntities.length raw) .start :=
    ⟨(Nat.zero_add _).trans_le hexpansions, (Nat.zero_add _).trans_le hsize⟩
  intro h
  rcases Content.bind_eq_error_iff.1 h with h | ⟨p, -, h⟩
  · exact (within_expand hdepth hroom hstart).noExcess excess h
  · cases h

end Doctype.Attribute.Value
