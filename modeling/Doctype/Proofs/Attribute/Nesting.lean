import Doctype.Proofs.Attribute.Cost
import Doctype.Proofs.Attribute.Reading

/-!
How entities are nested in an expansion. What is done with the pieces of a text is a tree, in
which each entity that is replaced has what is done with its replacement text (`Expands`);
there is at most one (`Expands.unique`). A run that comes to an end performs such a tree: it
writes the leaves, it counts the entities that are replaced, and their nesting, their number
and what is written stay within the bounds (`expand_performs`). A normal form is what such a
tree writes (`exists_expands_of_normalize`).
-/

namespace Doctype.Attribute.Value

variable {g : Graph} {limits : Limits} {t u n : Text} {p q : Progress} {piece : Piece}
  {ps qs : List Piece}
  {room : Nat} {deeper : Option (Text → Progress → Except Error Progress)}

/-! ### Trees -/

/-- What is done with pieces: each is written, or the replacement text of the entity that it
refers to is expanded in its place. -/
inductive Expansion
  | nil
  | written (piece : Piece) (rest : Expansion)
  | replaced (name : Text) (inner rest : Expansion)

namespace Expansion

def leaves : Expansion → List Piece
  | nil => []
  | written piece rest => piece :: rest.leaves
  | replaced _ inner rest => inner.leaves ++ rest.leaves

def value (x : Expansion) : Text :=
  x.leaves.flatMap Piece.written

def count : Expansion → Nat
  | nil => 0
  | written _ rest => rest.count
  | replaced _ inner rest => inner.count + 1 + rest.count

def depth : Expansion → Nat
  | nil => 0
  | written _ rest => rest.depth
  | replaced _ inner rest => max (inner.depth + 1) rest.depth

@[simp] theorem value_nil : nil.value = [] := rfl

@[simp] theorem value_written (piece : Piece) (rest : Expansion) :
    (written piece rest).value = piece.written ++ rest.value := rfl

@[simp] theorem value_replaced (name : Text) (inner rest : Expansion) :
    (replaced name inner rest).value = inner.value ++ rest.value :=
  List.flatMap_append

end Expansion

/-- `Expands g ps x`: with the pieces `ps` is done what `x` says. A piece that is no reference
to an entity with a replacement text is written. -/
inductive Expands (g : Graph) : List Piece → Expansion → Prop
  | nil : Expands g [] .nil
  | written {piece : Piece} {ps : List Piece} {rest : Expansion} :
      (∀ n u, piece = .reference n → ¬Replacement g n u) → Expands g ps rest →
      Expands g (piece :: ps) (.written piece rest)
  | replaced {n u : Text} {qs ps : List Piece} {inner rest : Expansion} :
      Replacement g n u → Segments u qs → Expands g qs inner → Expands g ps rest →
      Expands g (.reference n :: ps) (.replaced n inner rest)

/-- One thing is done with pieces. -/
theorem Expands.unique {x y : Expansion} (hx : Expands g ps x) (hy : Expands g ps y) :
    x = y := by
  induction hx generalizing y with
  | nil =>
      cases hy
      rfl
  | written hnone _ ih =>
      cases hy with
      | written _ hy => rw [ih hy]
      | replaced hu _ _ _ => exact absurd hu (hnone _ _ rfl)
  | replaced hu hqs _ _ ihInner ih =>
      cases hy with
      | written hnone _ => exact absurd hu (hnone _ _ rfl)
      | replaced hu' hqs' hinner hy =>
          obtain rfl := hu.unique hu'
          obtain rfl := (segments_iff.1 hqs).symm.trans (segments_iff.1 hqs')
          rw [ihInner hinner, ih hy]

/-! ### Steps -/

theorem expandPiece_of_replacement (hu : Replacement g n u) :
    expandPiece g limits deeper p (.reference n) =
      expandEntity limits deeper n u (p.meet n) := by
  obtain ⟨e, hentity, hliteral⟩ := hu
  simp only [expandPiece, hentity, hliteral]
  rfl

theorem out_of_expandPiece (hnone : ∀ n u, piece = .reference n → ¬Replacement g n u)
    (h : expandPiece g limits deeper p piece = .ok q) :
    q.out = p.out.append piece.written ∧ q.expansions = p.expansions := by
  rcases expandPiece_eq_ok h with ⟨-, rfl⟩ | ⟨n, rfl, hreference⟩
  · exact ⟨rfl, rfl⟩
  · rcases hreference with ⟨-, rfl⟩ | ⟨e, -, -, -, -, rfl⟩ | ⟨e, u, -, -, hentity, hliteral, -⟩
    · exact ⟨rfl, rfl⟩
    · exact ⟨rfl, rfl⟩
    · exact absurd ⟨e, hentity, hliteral⟩ (hnone n u rfl)

/-! ### Runs -/

/-- `p.Performs limits room ps x q`: from `p` to `q` the tree `x` was performed, with entities
at most `room` levels deep. Behind the last check of the size only pieces of `ps` were
written. -/
structure Progress.Performs (p : Progress) (limits : Limits) (room : Nat) (ps : List Piece)
    (x : Expansion) (q : Progress) : Prop where
  out : q.out.toText = p.out.toText ++ x.value
  expansions : q.expansions = p.expansions + x.count
  count_le : q.expansions ≤ max p.expansions limits.entityExpansions
  depth_le : x.depth ≤ room
  bytes_le : q.out.bytes ≤
    max p.out.bytes limits.entityExpansionSize + Text.size (ps.flatMap Piece.written)

namespace Progress.Performs

variable {p' : Progress} {rest inner : Expansion}

theorem nil (p : Progress) : p.Performs limits room [] .nil p where
  out := by rw [Expansion.value_nil, List.append_nil]
  expansions := rfl
  count_le := Nat.le_max_left _ _
  depth_le := Nat.zero_le _
  bytes_le := Nat.le_max_left _ _

/-- A piece was written first. -/
theorem written (hout : p'.out = p.out.append piece.written)
    (hexpansions : p'.expansions = p.expansions) (h : p'.Performs limits room ps rest q) :
    p.Performs limits room (piece :: ps) (.written piece rest) q where
  out := by rw [h.out, hout, Buffer.toText_append, Expansion.value_written, List.append_assoc]
  expansions := by rw [h.expansions, hexpansions, Expansion.count]
  count_le := by
    have hcount := h.count_le
    rwa [hexpansions] at hcount
  depth_le := h.depth_le
  bytes_le := by
    have hbytes := h.bytes_le
    rw [hout, bytes_append] at hbytes
    rw [List.flatMap_cons, Text.size_append]
    omega

/-- The replacement text of an entity was expanded first, one level deeper, and the number of
expansions and the size were checked. -/
theorem replaced {after : Progress}
    (hinner : ((p.meet n).descend n).Performs limits room qs inner after)
    (hcount : p.expansions + 1 ≤ limits.entityExpansions)
    (hsize : after.out.bytes ≤ limits.entityExpansionSize)
    (h : (after.within p.active after.expansions).Performs limits (room + 1) ps rest q) :
    p.Performs limits (room + 1) (.reference n :: ps) (.replaced n inner rest) q where
  out := by
    have hafter : after.out.toText = p.out.toText ++ inner.value := hinner.out
    have hq : q.out.toText = after.out.toText ++ rest.value := h.out
    rw [hq, hafter, Expansion.value_replaced, List.append_assoc]
  expansions := by
    have hafter : after.expansions = p.expansions + 1 + inner.count := hinner.expansions
    have hq : q.expansions = after.expansions + rest.count := h.expansions
    rw [hq, hafter, Expansion.count]
    omega
  count_le := by
    have hafter : after.expansions ≤ max (p.expansions + 1) limits.entityExpansions :=
      hinner.count_le
    have hq : q.expansions ≤ max after.expansions limits.entityExpansions := h.count_le
    omega
  depth_le := by
    have hdepth := hinner.depth_le
    have hrest := h.depth_le
    rw [Expansion.depth]
    omega
  bytes_le := by
    have hq : q.out.bytes ≤
        max after.out.bytes limits.entityExpansionSize + Text.size
          (ps.flatMap Piece.written) := h.bytes_le
    rw [List.flatMap_cons, Text.size_append]
    omega

end Progress.Performs

/-- Pieces whose replacement texts perform trees perform one. -/
theorem foldlM_performs
    (hdeeper : ∀ expand, deeper = some expand → ∃ less < room, ∀ u p q, expand u p = .ok q →
      ∃ x, Expands g (pieces u) x ∧ p.Performs limits less (pieces u) x q)
    (h : ps.foldlM (expandPiece g limits deeper) p = .ok q) :
    ∃ x, Expands g ps x ∧ p.Performs limits room ps x q := by
  induction ps generalizing p with
  | nil =>
      cases h
      exact ⟨.nil, .nil, .nil _⟩
  | cons piece ps ih =>
      rw [List.foldlM_cons] at h
      obtain ⟨p', hpiece, h⟩ := Content.bind_eq_ok_iff.1 h
      obtain ⟨rest, hrest, hperforms⟩ := ih h
      by_cases hreplaced : ∃ n u, piece = .reference n ∧ Replacement g n u
      · obtain ⟨n, u, rfl, hu⟩ := hreplaced
        rw [expandPiece_of_replacement hu] at hpiece
        obtain ⟨expand, after, -, hcount, hexpand, hafter, hsize, rfl⟩ :=
          expandEntity_eq_ok hpiece
        obtain ⟨less, hless, hdeeper⟩ := hdeeper expand hexpand
        obtain ⟨inner, hinner, hinside⟩ := hdeeper u _ after hafter
        -- entities may be expanded below, so there is room for this one
        obtain ⟨room, rfl⟩ : ∃ k, room = k + 1 := ⟨room - 1, by omega⟩
        have hinside : ((p.meet n).descend n).Performs limits room (pieces u) inner after :=
          { hinside with depth_le := hinside.depth_le.trans (Nat.le_of_lt_succ hless) }
        exact ⟨.replaced n inner rest, .replaced hu (segments_pieces u) hinner hrest,
          .replaced hinside hcount hsize hperforms⟩
      · have hnone : ∀ n u, piece = .reference n → ¬Replacement g n u := fun n u hn hu =>
          hreplaced ⟨n, u, hn, hu⟩
        obtain ⟨hout, hexpansions⟩ := out_of_expandPiece hnone hpiece
        exact ⟨.written piece rest, .written hnone hrest, .written hout hexpansions hperforms⟩

/-- An expansion that comes to an end performs a tree, by induction on how deep entities may be
nested. -/
theorem expand_performs (h : expand g limits room t p = .ok q) :
    ∃ x, Expands g (pieces t) x ∧ p.Performs limits room (pieces t) x q := by
  induction room using Nat.strong_induction_on generalizing t p q with
  | _ room ih =>
      obtain ⟨deeper, hdeeper, heq⟩ := exists_deeper g limits room
      rw [heq] at h
      refine foldlM_performs (fun inner hinner => ?_) h
      obtain ⟨less, hless, rfl⟩ := hdeeper inner hinner
      exact ⟨less, hless, fun u p q hrun => ih less hless hrun⟩

/-- A normal form is what the tree of its value writes. -/
theorem exists_expands_of_normalize {raw : Text} {isTokenized : Bool} {v : Normalized}
    (h : normalize g limits raw isTokenized = .ok v) :
    ∃ x q, Expands g (pieces raw) x ∧
      v.value = (if isTokenized then collapse x.value else x.value) ∧
      expand g limits limits.entityDepth raw .start = .ok q ∧
      Progress.start.Performs limits limits.entityDepth (pieces raw) x q := by
  obtain ⟨q, hrun, hv⟩ := Content.bind_eq_ok_iff.1 h
  cases hv
  obtain ⟨x, hx, hperforms⟩ := expand_performs hrun
  have hout : q.out.toText = x.value := hperforms.out
  exact ⟨x, q, hx, by rw [hout], hrun, hperforms⟩

end Doctype.Attribute.Value
