import Mathlib.Data.List.Chain
import Doctype.Attribute.Value
import Doctype.Proofs.Text.Blank

/-!
Values that are split into tokens. Between two tokens stands one space, and around them none
(`singleSpaced_collapse`).
-/

namespace Doctype.Attribute.Value

variable {t w : Text}

/-- No space stands at an end of the text or beside another one. -/
structure SingleSpaced (t : Text) : Prop where
  head : t.head? ≠ some ' '
  last : t.getLast? ≠ some ' '
  inner : ¬[' ', ' '] <:+: t

theorem not_doubled_iff : ¬[' ', ' '] <:+: t ↔ t.IsChain fun c d => ¬(c = ' ' ∧ d = ' ') := by
  rw [List.isChain_iff_forall_rel_of_append_cons_cons]
  constructor
  · rintro h c d a b rfl ⟨rfl, rfl⟩
    exact h ⟨a, b, by simp⟩
  · rintro h ⟨a, b, hab⟩
    have ht : t = a ++ ' ' :: ' ' :: b := by simp [← hab]
    exact h ht ⟨rfl, rfl⟩

theorem SingleSpaced.of_notMem (h : ' ' ∉ t) : SingleSpaced t where
  head hhead := h (List.mem_of_head? hhead)
  last hlast := h (List.mem_of_getLast? hlast)
  inner hdoubled := h (hdoubled.subset List.mem_cons_self)

/-- A token and a space can stand in front of such a text. -/
theorem SingleSpaced.token_append (ht : SingleSpaced t) (hne : t ≠ []) (hw : w ≠ [])
    (hspace : ' ' ∉ w) : SingleSpaced (w ++ [' '] ++ t) where
  head h := by
    rw [List.append_assoc, List.head?_append_of_ne_nil _ hw] at h
    exact hspace (List.mem_of_head? h)
  last h := by
    rw [List.getLast?_append_of_ne_nil _ hne] at h
    exact ht.last h
  inner := by
    rw [not_doubled_iff, List.isChain_append, List.isChain_append]
    refine ⟨⟨?_, .singleton _, ?_⟩, ?_, ?_⟩
    · exact not_doubled_iff.1 (SingleSpaced.of_notMem hspace).inner
    · rintro c hc d - ⟨rfl, -⟩
      exact hspace (List.mem_of_getLast? hc)
    · exact not_doubled_iff.1 ht.inner
    · rintro c - d hd ⟨-, rfl⟩
      exact ht.head hd

theorem singleSpaced_join {ws : List Text} (h : ∀ w ∈ ws, w ≠ [] ∧ ' ' ∉ w) :
    SingleSpaced (Text.join [' '] ws) := by
  induction ws with
  | nil => exact .of_notMem List.not_mem_nil
  | cons w ws ih =>
      obtain ⟨⟨hne, hspace⟩, hws⟩ := List.forall_mem_cons.1 h
      cases ws with
      | nil => simpa [Text.join] using SingleSpaced.of_notMem hspace
      | cons v ws =>
          have hrest : Text.join [' '] (v :: ws) ≠ [] := by
            obtain ⟨c, v, rfl⟩ := List.exists_cons_of_ne_nil (List.forall_mem_cons.1 hws).1.1
            cases ws <;> simp [Text.join]
          rw [Text.join, List.intercalate_cons_cons]
          exact (ih hws).token_append hrest hne hspace

/-- The tokens of a value with single spaces between them. -/
theorem singleSpaced_collapse (t : Text) : SingleSpaced (collapse t) := by
  refine singleSpaced_join fun w hw => ?_
  obtain ⟨hmem, hne⟩ := List.mem_filter.1 hw
  have hne : w ≠ [] := by simpa using hne
  obtain ⟨-, hclass, -⟩ := Text.isRun_of_mem_splitBy hne hmem
  exact ⟨hne, fun hspace => by simpa using hclass ' ' hspace⟩

end Doctype.Attribute.Value
