import Doctype.Text.Blank
import Doctype.Text.Search

/-!
The first place of a mark, and line ends. A mark whose last character is not in it before is
found where it was put (`breakAt?_append`), as it cannot overlap itself. Line ends are made
plain part by part (`normalizeLineEndings_append`).
-/

namespace Doctype.Text

variable {m a b t : Text} {e : Char}

/-- A mark that was put behind a text does not begin in it, unless the text holds the whole
mark. -/
theorem dropPrefix?_append_eq_none (he : e ∉ m) (ha : a ≠ []) (hmark : ¬ m ++ [e] <:+: a)
    (b : Text) : dropPrefix? (m ++ [e]) (a ++ (m ++ [e] ++ b)) = none := by
  cases hdrop : dropPrefix? (m ++ [e]) (a ++ (m ++ [e] ++ b)) with
  | none => rfl
  | some rest =>
      exfalso
      have hsplit := dropPrefix?_eq_some hdrop
      by_cases hlength : (m ++ [e]).length ≤ a.length
      · have hstarts : m ++ [e] <+: a ++ (m ++ [e] ++ b) := ⟨rest, hsplit.symm⟩
        exact hmark (List.prefix_of_prefix_length_le hstarts (List.prefix_append _ _)
          hlength).isInfix
      · -- where the mark that begins in `a` ends, the mark behind `a` does not
        have hpos := List.length_pos_iff.2 ha
        simp only [List.length_append, List.length_singleton] at hlength
        have hend := congrArg (·[m.length]?) hsplit
        simp only [List.append_assoc] at hend
        rw [List.getElem?_append_right (by omega), List.getElem?_append_left (by omega),
          List.getElem?_append_right (Nat.le_refl _)] at hend
        simp only [Nat.sub_self, List.cons_append, List.getElem?_cons_zero] at hend
        exact he (List.mem_of_getElem? hend)

/-- The first place of a mark is where it was put behind a text without it. -/
theorem breakAt?_append (he : e ∉ m) (hmark : ¬ m ++ [e] <:+: a) (b : Text) :
    breakAt? (m ++ [e]) (a ++ (m ++ [e] ++ b)) = some (a, b) := by
  have hfrom (before : Text) :
      breakFrom? (m ++ [e]) before (a ++ (m ++ [e] ++ b)) = some (before.reverse ++ a, b) := by
    induction a generalizing before with
    | nil =>
        unfold breakFrom?
        rw [List.nil_append, dropPrefix?_append]
        simp
    | cons c a ih =>
        have hrest : ¬ m ++ [e] <:+: a :=
          fun h => hmark (h.trans (List.suffix_cons c a).isInfix)
        unfold breakFrom?
        rw [dropPrefix?_append_eq_none he (List.cons_ne_nil c a) hmark]
        simpa using ih hrest (c :: before)
  exact hfrom []

/-! ### Line ends -/

@[elab_as_elim]
theorem lineEnds_induction {motive : Text → Prop} (nil : motive [])
    (pair : ∀ t, motive t → motive ('\r' :: '\n' :: t))
    (alone : ∀ t, (∀ u, t ≠ '\n' :: u) → motive t → motive ('\r' :: t))
    (cons : ∀ c t, c ≠ '\r' → motive t → motive (c :: t)) (t : Text) : motive t :=
  unifyLineEnds.induct (fun _ t => motive t) (fun _ => nil) (fun _ => pair) (fun _ => alone)
    (fun _ c t _ hc ih => cons c t hc ih) [] t

theorem unifyLineEnds_eq (done t : Text) :
    unifyLineEnds done t = done.reverse ++ normalizeLineEndings t := by
  rw [normalizeLineEndings]
  induction t using lineEnds_induction generalizing done with
  | nil => simp [unifyLineEnds]
  | pair t ih =>
      rw [unifyLineEnds, unifyLineEnds, ih, ih [_]]
      simp
  | alone t hnext ih =>
      rw [unifyLineEnds, unifyLineEnds, ih, ih [_]]
      · simp
      · exact hnext
      · exact hnext
  | cons c t hreturn ih =>
      have hpair : ∀ u, c = '\r' → t = '\n' :: u → False := fun _ hc _ => hreturn hc
      rw [unifyLineEnds, unifyLineEnds, ih, ih [_]]
      · simp
      all_goals assumption

theorem normalizeLineEndings_cons {c : Char} (hc : c ≠ '\r') (t : Text) :
    normalizeLineEndings (c :: t) = c :: normalizeLineEndings t := by
  rw [normalizeLineEndings, unifyLineEnds, unifyLineEnds_eq]
  · rfl
  · rintro _ rfl
    exact absurd rfl hc
  · exact hc

theorem normalizeLineEndings_return {t : Text} (ht : ∀ u, t ≠ '\n' :: u) :
    normalizeLineEndings ('\r' :: t) = '\n' :: normalizeLineEndings t := by
  rw [normalizeLineEndings, unifyLineEnds, unifyLineEnds_eq]
  · rfl
  · exact ht

theorem normalizeLineEndings_pair (t : Text) :
    normalizeLineEndings ('\r' :: '\n' :: t) = '\n' :: normalizeLineEndings t := by
  rw [normalizeLineEndings, unifyLineEnds, unifyLineEnds_eq]
  rfl

/-- Line ends are made plain part by part, where no pair is cut. -/
theorem normalizeLineEndings_append (a : Text) (ht : ∀ u, t ≠ '\n' :: u) :
    normalizeLineEndings (a ++ t) = normalizeLineEndings a ++ normalizeLineEndings t := by
  induction a using lineEnds_induction with
  | nil => rfl
  | pair a ih => simp [normalizeLineEndings_pair, ih]
  | alone a hnext ih =>
      have happend : ∀ u, a ++ t ≠ '\n' :: u := by
        cases a with
        | nil => exact ht
        | cons c a =>
            rintro u ⟨⟩
            exact hnext a rfl
      rw [List.cons_append, normalizeLineEndings_return happend,
        normalizeLineEndings_return hnext, ih]
      rfl
  | cons c a hreturn ih =>
      rw [List.cons_append, normalizeLineEndings_cons hreturn,
        normalizeLineEndings_cons hreturn, ih]
      rfl

theorem normalizeLineEndings_append_of_notMem (ha : '\r' ∉ a) (t : Text) :
    normalizeLineEndings (a ++ t) = a ++ normalizeLineEndings t := by
  induction a with
  | nil => rfl
  | cons c a ih =>
      obtain ⟨hc, ha⟩ := not_or.1 (mt List.mem_cons.2 ha)
      rw [List.cons_append, normalizeLineEndings_cons (Ne.symm hc), ih ha]
      rfl

theorem mem_or_eq_of_mem_normalizeLineEndings {d : Char} (hd : d ∈ normalizeLineEndings t) :
    d ∈ t ∨ d = '\n' := by
  induction t using lineEnds_induction with
  | nil => exact .inl hd
  | pair t ih =>
      rw [normalizeLineEndings_pair, List.mem_cons] at hd
      rcases hd with hd | hd
      · exact .inr hd
      · exact (ih hd).imp_left fun h => List.mem_cons_of_mem _ (List.mem_cons_of_mem _ h)
  | alone t hnext ih =>
      rw [normalizeLineEndings_return hnext, List.mem_cons] at hd
      rcases hd with hd | hd
      · exact .inr hd
      · exact (ih hd).imp_left (List.mem_cons_of_mem _)
  | cons c t hreturn ih =>
      rw [normalizeLineEndings_cons hreturn, List.mem_cons] at hd
      rcases hd with rfl | hd
      · exact .inl List.mem_cons_self
      · exact (ih hd).imp_left (List.mem_cons_of_mem _)

theorem normalizeLineEndings_eq_nil_iff (t : Text) : normalizeLineEndings t = [] ↔ t = [] := by
  induction t using lineEnds_induction with
  | nil => exact Iff.rfl
  | pair t _ => simp [normalizeLineEndings_pair]
  | alone t hnext _ => simp [normalizeLineEndings_return hnext]
  | cons c t hreturn _ => simp [normalizeLineEndings_cons hreturn]

end Doctype.Text
