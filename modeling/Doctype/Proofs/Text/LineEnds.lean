import Doctype.Proofs.Text.Declaration
import Doctype.Proofs.Text.Mark

/-!
Text declarations and line ends. What is dropped from the front of a text does not depend on
whether its line ends were made plain before (`dropDeclaration_normalizeLineEndings`). A text
declaration is dropped with the byte order mark in front of it and nothing else
(`IsDeclaration.dropDeclaration_append`), and a text that begins with neither is left as it is
(`dropDeclaration_of_undeclared`).
-/

namespace Doctype.Text

variable {mark t u d : Text}

/-! ### Plain line ends -/

theorem exists_normalizeLineEndings_return (t : Text) :
    ∃ u, (t = u ∨ t = '\n' :: u) ∧
      normalizeLineEndings ('\r' :: t) = '\n' :: normalizeLineEndings u := by
  by_cases hpair : ∃ u, t = '\n' :: u
  · obtain ⟨u, rfl⟩ := hpair
    exact ⟨u, .inr rfl, normalizeLineEndings_pair u⟩
  · exact ⟨t, .inl rfl, normalizeLineEndings_return fun u hu => hpair ⟨u, hu⟩⟩

theorem dropPrefix?_cons_cons (m c : Char) (mark t : Text) :
    dropPrefix? (m :: mark) (c :: t) = if m = c then dropPrefix? mark t else none := by
  by_cases hc : m = c <;> simp [dropPrefix?, hc]

/-- A mark in which no line ends stands in front of a text or does not, whatever the line ends
in the text are. -/
theorem dropPrefix?_normalizeLineEndings (hmark : '\n' ∉ mark ∧ '\r' ∉ mark) (t : Text) :
    dropPrefix? mark (normalizeLineEndings t) =
      (dropPrefix? mark t).map normalizeLineEndings := by
  induction mark generalizing t with
  | nil => rfl
  | cons m mark ih =>
      obtain ⟨hfeed, hreturn⟩ := hmark
      obtain ⟨hm, hfeed⟩ := not_or.1 (mt List.mem_cons.2 hfeed)
      obtain ⟨hm', hreturn⟩ := not_or.1 (mt List.mem_cons.2 hreturn)
      cases t with
      | nil => rfl
      | cons c t =>
          by_cases hc : c = '\r'
          · subst hc
            obtain ⟨u, -, hu⟩ := exists_normalizeLineEndings_return t
            rw [hu, dropPrefix?_cons_cons, dropPrefix?_cons_cons, if_neg (Ne.symm hm),
              if_neg (Ne.symm hm')]
            rfl
          · rw [normalizeLineEndings_cons hc, dropPrefix?_cons_cons, dropPrefix?_cons_cons]
            split
            · exact ih ⟨hfeed, hreturn⟩ t
            · rfl

theorem dropWhile_normalizeLineEndings {p : Char → Bool} (hp : p '\n' = true ∧ p '\r' = true)
    (t : Text) :
    (normalizeLineEndings t).dropWhile p = normalizeLineEndings (t.dropWhile p) := by
  induction t using lineEnds_induction with
  | nil => rfl
  | pair t ih =>
      rw [normalizeLineEndings_pair, List.dropWhile_cons_of_pos hp.1, ih,
        List.dropWhile_cons_of_pos hp.2, List.dropWhile_cons_of_pos hp.1]
  | alone t hnext ih =>
      rw [normalizeLineEndings_return hnext, List.dropWhile_cons_of_pos hp.1, ih,
        List.dropWhile_cons_of_pos hp.2]
  | cons c t hreturn ih =>
      rw [normalizeLineEndings_cons hreturn]
      by_cases hc : p c = true
      · rw [List.dropWhile_cons_of_pos hc, ih, List.dropWhile_cons_of_pos hc]
      · rw [List.dropWhile_cons_of_neg hc, List.dropWhile_cons_of_neg hc,
          normalizeLineEndings_cons hreturn]

theorem afterDeclaration?_normalizeLineEndings (t : Text) :
    afterDeclaration? (normalizeLineEndings t) =
      (afterDeclaration? t).map normalizeLineEndings := by
  -- what is behind the first question mark is the same, whatever the line ends in front of it
  -- are
  have hend (v : Text) : dropPrefix? "?>" ((normalizeLineEndings v).dropWhile (· ≠ '?')) =
      (dropPrefix? "?>" (v.dropWhile (· ≠ '?'))).map normalizeLineEndings := by
    rw [dropWhile_normalizeLineEndings (by decide),
      dropPrefix?_normalizeLineEndings (by decide)]
  unfold afterDeclaration?
  rw [dropPrefix?_normalizeLineEndings (by decide)]
  cases dropPrefix? "<?xml" t with
  | none => rfl
  | some v =>
      cases v with
      | nil => rfl
      | cons c v =>
          by_cases hc : c = '\r'
          · subst hc
            obtain ⟨u, hv, hu⟩ := exists_normalizeLineEndings_return v
            have hdrop : v.dropWhile (· ≠ '?') = u.dropWhile (· ≠ '?') := by
              rcases hv with rfl | rfl
              · rfl
              · exact List.dropWhile_cons_of_pos (by decide)
            have hspace : isWhiteSpace '\n' = true ∧ isWhiteSpace '\r' = true := by decide
            simp only [Option.map_some, hu, hspace.1, hspace.2, if_true, hdrop, hend]
          · simp only [Option.map_some, normalizeLineEndings_cons hc, hend]
            split <;> rfl

theorem dropByteOrderMark_eq (t : Text) :
    dropByteOrderMark t = (dropPrefix? ['\uFEFF'] t).getD t := by
  unfold dropByteOrderMark
  split
  · rfl
  · next hne =>
    cases t with
    | nil => rfl
    | cons c t =>
        have hc : '\uFEFF' ≠ c := fun hc => hne t (by rw [hc])
        rw [dropPrefix?_cons_cons, if_neg hc]
        rfl

/-- What is dropped does not depend on the line ends. -/
theorem dropDeclaration_normalizeLineEndings (t : Text) :
    dropDeclaration (normalizeLineEndings t) = normalizeLineEndings (dropDeclaration t) := by
  have hmark : dropByteOrderMark (normalizeLineEndings t) =
      normalizeLineEndings (dropByteOrderMark t) := by
    rw [dropByteOrderMark_eq, dropByteOrderMark_eq,
      dropPrefix?_normalizeLineEndings (by decide)]
    cases dropPrefix? ['\uFEFF'] t <;> rfl
  unfold dropDeclaration
  dsimp only
  rw [hmark, afterDeclaration?_normalizeLineEndings]
  cases afterDeclaration? (dropByteOrderMark t) <;> rfl

/-! ### Declarations -/

/-- `BOM? '<?xml' Space (Char - '?')* '?>'`, where `Space` is one white space of Unicode. -/
inductive IsDeclaration : Text → Prop
  | unmarked {c : Char} {u : Text} : isWhiteSpace c = true → '?' ∉ u →
      IsDeclaration ("<?xml".toList ++ c :: (u ++ "?>".toList))
  | marked {c : Char} {u : Text} : isWhiteSpace c = true → '?' ∉ u →
      IsDeclaration ('\uFEFF' :: ("<?xml".toList ++ c :: (u ++ "?>".toList)))

theorem afterDeclaration?_append {c : Char} (hc : isWhiteSpace c = true) (hu : '?' ∉ u)
    (t : Text) :
    afterDeclaration? ("<?xml".toList ++ c :: (u ++ "?>".toList) ++ t) = some t := by
  have hend : dropPrefix? "?>" ((u ++ '?' :: ('>' :: t)).dropWhile (· ≠ '?')) = some t := by
    rw [dropWhile_question hu]
    exact dropPrefix?_append "?>" t
  have htext : "<?xml".toList ++ c :: (u ++ "?>".toList) ++ t =
      "<?xml".toList ++ c :: (u ++ '?' :: ('>' :: t)) := by
    simp
  rw [htext, afterDeclaration?, dropPrefix?_append]
  simp only [hc, if_true, hend]

/-- A text declaration is dropped, with the mark in front of it. -/
theorem IsDeclaration.dropDeclaration_append (hd : IsDeclaration d) (t : Text) :
    dropDeclaration (d ++ t) = t := by
  cases hd with
  | @unmarked c u hc hu =>
      show (afterDeclaration? ("<?xml".toList ++ c :: (u ++ "?>".toList) ++ t)).getD _ = t
      rw [afterDeclaration?_append hc hu]
      rfl
  | @marked c u hc hu =>
      show (afterDeclaration? ("<?xml".toList ++ c :: (u ++ "?>".toList) ++ t)).getD _ = t
      rw [afterDeclaration?_append hc hu]
      rfl

theorem exists_of_afterDeclaration? (h : afterDeclaration? t = some u) :
    ∃ d, IsDeclaration d ∧ t = d ++ u := by
  unfold afterDeclaration? at h
  split at h
  · next c v hkeyword =>
    split at h
    · next hc =>
      have hv : v = v.takeWhile (· ≠ '?') ++ ("?>".toList ++ u) := by
        rw [← dropPrefix?_eq_some h, List.takeWhile_append_dropWhile]
      have hquestion : '?' ∉ v.takeWhile (· ≠ '?') := fun hmem => by
        simpa using List.mem_takeWhile_imp hmem
      refine ⟨_, .unmarked hc hquestion, ?_⟩
      rw [dropPrefix?_eq_some hkeyword, List.append_assoc, List.cons_append,
        List.append_assoc, ← hv]
    · cases h
  · cases h

theorem IsDeclaration.not_prefix (hd : IsDeclaration d) (hmark : t.head? ≠ some '\uFEFF')
    (ht : dropPrefix? "<?xml" t = none) : ¬d <+: t := by
  rintro ⟨r, rfl⟩
  cases hd with
  | unmarked _ _ =>
      rw [List.append_assoc, dropPrefix?_append] at ht
      cases ht
  | marked _ _ => exact hmark rfl

/-- A text that begins with neither a byte order mark nor a text declaration is left as it
is. -/
theorem dropDeclaration_of_undeclared (hmark : t.head? ≠ some '\uFEFF')
    (ht : ∀ d, IsDeclaration d → ¬d <+: t) : dropDeclaration t = t := by
  have hafter : afterDeclaration? t = none := by
    rw [Option.eq_none_iff_forall_ne_some]
    intro u hu
    obtain ⟨d, hd, rfl⟩ := exists_of_afterDeclaration? hu
    exact ht d hd (List.prefix_append d u)
  rw [dropDeclaration, dropByteOrderMark_of_head? hmark, hafter]
  rfl

end Doctype.Text
