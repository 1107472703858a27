import Mathlib.Algebra.Order.BigOperators.Group.List
import Mathlib.Algebra.Order.Group.Nat
import Doctype.Proofs.Attribute.Nesting
import Doctype.Proofs.Attribute.Normalization
import Doctype.Proofs.Markup.Size

/-!
Sizes of default values. What the pieces of a text write by themselves is no longer than the
text (`Segments.size_le`), and splitting a value into tokens does not make it longer
(`size_collapse_le`). So a normal form is at most as much longer than the value as written as
an expansion may be long, and the tree of its expansion is within the bounds on number and
depth (`size_normalize_le`).
-/

namespace Doctype

namespace Text

theorem size_join (ws : List Text) :
    size (join [' '] ws) = (ws.map fun w => size w + 1).sum - 1 := by
  induction ws with
  | nil => rfl
  | cons w ws ih =>
      have hspace : ' '.utf8Size = 1 := rfl
      cases ws with
      | nil => simp [join]
      | cons v ws =>
          rw [join_cons_cons, size_append, size_append, ih]
          simp only [size_cons, size_nil, hspace, List.map_cons, List.sum_cons]
          omega

/-- Between two parts of a text stands one space. -/
theorem sum_splitBy (t : Text) :
    ((splitBy (· = ' ') t).map fun w => size w + 1).sum = size t + 1 := by
  induction t with
  | nil => rfl
  | cons c t ih =>
      obtain ⟨part, parts, ht, hct⟩ := splitBy_cons (fun c => decide (c = ' ')) c t
      rw [ht] at ih
      rw [hct]
      split
      · next hc =>
        have hspace : c.utf8Size = 1 := by
          rw [of_decide_eq_true hc]
          rfl
        simp only [List.map_cons, List.sum_cons, size_nil, size_cons] at ih ⊢
        omega
      · simp only [List.map_cons, List.sum_cons, size_cons] at ih ⊢
        omega

end Text

namespace Attribute.Value

variable {g : Graph} {limits : Limits} {t body raw : Text} {piece : Piece} {ps : List Piece}

theorem size_collapse_le (t : Text) : Text.size (collapse t) ≤ Text.size t := by
  have htokens : ((Text.splitBy (· = ' ') t).filter (! ·.isEmpty)).Sublist
      (Text.splitBy (· = ' ') t) :=
    List.filter_sublist
  have hsum := (htokens.map fun w => Text.size w + 1).sum_le_sum (by simp)
  rw [Text.sum_splitBy] at hsum
  rw [collapse, Text.size_join]
  omega

/-! ### Pieces -/

theorem size_of_mem_predefined {c : Char} (h : (body, c) ∈ predefined) : c.utf8Size = 1 := by
  have hall : ∀ e ∈ predefined, e.2.utf8Size = 1 := by decide
  exact hall _ h

/-- What a reference between its two marks writes by itself is not longer than the
reference. -/
theorem OfBody.size_le (h : OfBody body piece) :
    Text.size piece.written ≤ Text.size body + 2 := by
  have hmarks : Text.size (writeReference body) = Text.size body + 2 :=
    Reference.size_reference body []
  cases h with
  | denoted hdecode =>
      rw [Piece.written, Text.size_cons, Text.size_nil]
      exact Reference.size_of_decode hdecode
  | verbatim _ => exact hmarks.le
  | predefined hmem =>
      rw [Piece.written, Text.size_cons, size_of_mem_predefined hmem]
      exact Nat.le_add_left _ _
  | reference _ _ => exact hmarks.le

theorem size_written_literal_le (c : Char) :
    Text.size (Piece.literal c).written ≤ c.utf8Size := by
  have hspace : ' '.utf8Size = 1 := rfl
  have hc := c.utf8Size_pos
  rw [Piece.written, Text.size_cons, Text.size_nil]
  split <;> omega

/-- What the pieces of a text write by themselves is not longer than the text. -/
theorem Segments.size_le (h : Segments t ps) :
    Text.size (ps.flatMap Piece.written) ≤ Text.size t := by
  induction h with
  | nil => exact Nat.le_refl _
  | @char c t ps _ _ ih =>
      have hchar := size_written_literal_le c
      rw [List.flatMap_cons, Text.size_append, Text.size_cons]
      omega
  | @reference body t p ps _ hbody _ ih =>
      rw [List.flatMap_cons, Text.size_append, Reference.size_reference]
      exact Nat.add_le_add hbody.size_le ih
  | @ampersand t ps _ _ ih =>
      have hchar := size_written_literal_le '&'
      rw [List.flatMap_cons, Text.size_append, Text.size_cons]
      omega

/-! ### Normal forms -/

/-- A value that has a normal form has one tree of expansion. The run performs it: it counts
the entities that are replaced, they are not more and not nested deeper than the bounds allow,
and the normal form is at most as much longer than the value as written as an expansion may be
long. -/
theorem size_normalize_le {isTokenized : Bool} {v : Normalized}
    (h : normalize g limits raw isTokenized = .ok v) :
    Text.size v.value ≤ Text.size raw + limits.entityExpansionSize ∧
      ∃ ps x q, Segments raw ps ∧ Expands g ps x ∧ (∀ y, Expands g ps y → y = x) ∧
        v.value = (if isTokenized then collapse x.value else x.value) ∧
        expand g limits limits.entityDepth raw .start = .ok q ∧ q.expansions = x.count ∧
        x.count ≤ limits.entityExpansions ∧ x.depth ≤ limits.entityDepth := by
  obtain ⟨x, q, hx, hvalue, hrun, hperforms⟩ := exists_expands_of_normalize h
  have hcount : q.expansions = x.count := hperforms.expansions.trans (Nat.zero_add _)
  constructor
  · have hout : q.out.toText = x.value := hperforms.out
    have hbytes : q.out.bytes ≤
        max 0 limits.entityExpansionSize + Text.size ((pieces raw).flatMap Piece.written) :=
          hperforms.bytes_le
    have hwritten := (segments_pieces raw).size_le
    have hv : Text.size v.value ≤ q.out.bytes := by
      rw [hvalue, Buffer.bytes_eq_size, hout]
      split
      · exact size_collapse_le x.value
      · exact Nat.le_refl _
    omega
  · have hle : q.expansions ≤ max 0 limits.entityExpansions := hperforms.count_le
    refine ⟨pieces raw, x, q, segments_pieces raw, hx, fun y hy => hy.unique hx, hvalue,
      hrun, hcount, ?_, hperforms.depth_le⟩
    omega

/-- Bounds that a value with three expansions, two of them nested, reaches. -/
theorem size_normalize_le_nested :
    let limits : Limits :=
      { Limits.standard with
        entityExpansions := 3, entityExpansionSize := 33, entityDepth := 2 }
    let raw : Text := "&full;\t&lt; &nbsp;&org;"
    ∃ v x, normalize nestedEntities limits raw true = .ok v ∧
      Text.size v.value ≤ Text.size raw + 33 ∧
      Expands nestedEntities (pieces raw) x ∧ v.value = collapse x.value ∧
      x.count = 3 ∧ x.depth ≤ 2 := by
  intro limits raw
  have hok : normalize nestedEntities limits raw true =
      .ok ⟨"ACME Corp Ltd < &nbsp;ACME Corp", ["full", "org"], ["nbsp"]⟩ := by
    decide +kernel
  have hthree : (expand nestedEntities limits 2 raw .start).map Progress.expansions =
    .ok 3 := by decide +kernel
  obtain ⟨hsize, ps, x, q, hps, hx, -, hvalue, hrun, hcount, -, hdepth⟩ :=
    size_normalize_le hok
  obtain rfl := segments_iff.1 hps
  refine ⟨_, x, hok, hsize, hx, hvalue, ?_, hdepth⟩
  rw [show expand nestedEntities limits 2 raw .start = .ok q from hrun] at hthree
  rw [← hcount]
  exact Except.ok.inj hthree

end Attribute.Value
end Doctype
