import Doctype.Proofs.Text.Name
import Doctype.Text.Declaration

/-!
What is taken for a text declaration. A text that does not begin with `<?xml` has none
(`dropDeclaration_of_dropPrefix?`). The name of an instruction goes on behind `xml` with a name
character, and only the Ogham space mark among these is white space
(`isWhiteSpace_nameChar_iff`): then the instruction is taken for a text declaration, unless a
question mark in its data hides its end (`afterDeclaration?_xml`).
-/

namespace Doctype

/-- The Ogham space mark is the one white space among the name characters. -/
theorem isWhiteSpace_nameChar_iff {d : Char} (hname : isNameChar d = true) :
    isWhiteSpace d = true ↔ d = '\u1680' := by
  constructor
  · intro hspace
    have hcode : d.toNat = 0x1680 := by
      simp only [isNameChar, isNameStart, inRanges, nameStartRanges, nameRestRanges,
        List.any_cons,
        List.any_nil, Bool.or_eq_true, Bool.and_eq_true, decide_eq_true_eq,
          Bool.or_false] at hname
      simp only [isWhiteSpace, Bool.or_eq_true, Bool.and_eq_true, decide_eq_true_eq] at hspace
      omega
    exact Char.toNat_inj.1 hcode
  · rintro rfl
    decide

namespace Text

/-! ### What is left -/

theorem dropByteOrderMark_suffix (t : Text) : dropByteOrderMark t <:+ t := by
  unfold dropByteOrderMark
  split
  · exact List.suffix_cons _ _
  · exact List.suffix_refl _

theorem afterDeclaration?_suffix {t rest : Text} (h : afterDeclaration? t = some rest) :
    rest <:+ t := by
  unfold afterDeclaration? at h
  split at h
  · next c u hkeyword =>
    split at h
    · have hrest : rest <:+ u.dropWhile (· ≠ '?') := ⟨_, (dropPrefix?_eq_some h).symm⟩
      have hu : c :: u <:+ t := ⟨_, (dropPrefix?_eq_some hkeyword).symm⟩
      exact hrest.trans ((List.dropWhile_suffix _).trans ((List.suffix_cons c u).trans hu))
    · cases h
  · cases h

theorem dropDeclaration_suffix (t : Text) : dropDeclaration t <:+ t := by
  have hmark := dropByteOrderMark_suffix t
  unfold dropDeclaration
  dsimp only
  cases hafter : afterDeclaration? (dropByteOrderMark t) with
  | none => exact hmark
  | some rest => exact (afterDeclaration?_suffix hafter).trans hmark

/-! ### No declaration -/

theorem afterDeclaration?_of_dropPrefix? {t : Text} (h : dropPrefix? "<?xml" t = none) :
    afterDeclaration? t = none := by
  rw [afterDeclaration?, h]

theorem dropPrefix?_of_head? {t : Text} (h : t.head? ≠ some '<') :
    dropPrefix? "<?xml" t = none := by
  cases t with
  | nil => rfl
  | cons d t =>
      have hd : d ≠ '<' := by simpa using h
      simp [dropPrefix?, Ne.symm hd]

theorem ne_of_isBlank {d : Char} (h : isBlank d = true) : d ≠ '<' ∧ d ≠ '\uFEFF' := by
  constructor <;>
  · rintro rfl
    cases h

theorem dropByteOrderMark_of_head? {t : Text} (h : t.head? ≠ some '\uFEFF') :
    dropByteOrderMark t = t := by
  unfold dropByteOrderMark
  split
  · exact absurd rfl h
  · rfl

theorem dropDeclaration_of_dropPrefix? {t : Text} (hmark : t.head? ≠ some '\uFEFF')
    (hafter : dropPrefix? "<?xml" t = none) : dropDeclaration t = t := by
  rw [dropDeclaration, dropByteOrderMark_of_head? hmark,
    afterDeclaration?_of_dropPrefix? hafter]
  rfl

theorem dropDeclaration_of_isBlank {t : Text} (h : ∀ d ∈ t.head?, isBlank d = true) :
    dropDeclaration t = t := by
  have hne {d : Char} (hd : t.head? = some d) : d ≠ '<' ∧ d ≠ '\uFEFF' :=
    ne_of_isBlank (h d hd)
  exact dropDeclaration_of_dropPrefix? (fun hd => (hne hd).2 rfl)
    (dropPrefix?_of_head? fun hd => (hne hd).1 rfl)

/-! ### Instructions -/

theorem ne_question_of_mem_name {target : Text} (hname : isName target = true) {c : Char}
    (hc : c ∈ target) : c ≠ '?' := by
  rintro rfl
  exact absurd (isNameChar_of_mem_name hname hc) (by decide)

theorem dropWhile_question {a t : Text} (ha : '?' ∉ a) :
    (a ++ '?' :: t).dropWhile (· ≠ '?') = '?' :: t := by
  have hne : ∀ d ∈ a, decide (d ≠ '?') = true := fun d hd => by
    simpa using ne_of_mem_of_not_mem hd ha
  rw [List.dropWhile_append_of_pos hne]
  rfl

/-- Only the first question mark is tried as the end of a text declaration. -/
theorem dropPrefix?_question {data : Text} (hdata : ¬ "?>".toList <:+: data) (rest : Text) :
    dropPrefix? "?>" ((data ++ '?' :: '>' :: rest).dropWhile (· ≠ '?')) =
      if data.contains '?' then none else some rest := by
  by_cases hmem : '?' ∈ data
  · obtain ⟨a, b, rfl, ha⟩ := List.eq_append_cons_of_mem hmem
    have hcontains : (a ++ '?' :: b).contains '?' = true := by simp
    rw [hcontains, if_pos rfl, List.append_assoc, List.cons_append, dropWhile_question ha]
    cases b with
    | nil => rfl
    | cons d b =>
        have hd : d ≠ '>' := by
          rintro rfl
          exact hdata ⟨a, b, by simp⟩
        simp [dropPrefix?, Ne.symm hd]
  · have hcontains : data.contains '?' = false := by simpa using hmem
    rw [hcontains, dropWhile_question hmem]
    exact dropPrefix?_append "?>" rest

theorem exists_of_dropPrefix?_xml {target t u : Text}
    (h : dropPrefix? "<?xml" ('<' :: '?' :: (target ++ ' ' :: t)) = some u) :
    ∃ w, target = 'x' :: 'm' :: 'l' :: w := by
  have hsplit := dropPrefix?_eq_some h
  have hmark : "<?xml".toList = ['<', '?', 'x', 'm', 'l'] := rfl
  simp only [hmark, List.cons_append, List.nil_append, List.cons.injEq, true_and] at hsplit
  match target, hsplit with
  | [], hsplit => simp at hsplit
  | [a], hsplit => simp at hsplit
  | [a, b], hsplit => simp at hsplit
  | a :: b :: c :: w, hsplit =>
      simp only [List.cons_append, List.cons.injEq] at hsplit
      obtain ⟨rfl, rfl, rfl, -⟩ := hsplit
      exact ⟨w, rfl⟩

/-- A target that goes on behind `xml`. -/
theorem afterDeclaration?_xml {d : Char} {w data : Text}
    (hname : isName ('x' :: 'm' :: 'l' :: d :: w) = true) (hdata : ¬ "?>".toList <:+: data)
    (rest : Text) :
    afterDeclaration?
        ('<' :: '?' :: 'x' :: 'm' :: 'l' :: d :: (w ++ ' ' :: (data ++ '?' :: '>' :: rest))) =
      if d = '\u1680' && !data.contains '?' then some rest else none := by
  have hd := isNameChar_of_mem_name hname (c := d) (by simp)
  have hrest : ∀ b ∈ w ++ [' '], decide (b ≠ '?') = true := by
    intro b hb
    rcases List.mem_append.1 hb with hb | hb
    · exact decide_eq_true (ne_question_of_mem_name hname (by simp [hb]))
    · rw [List.mem_singleton.1 hb]
      decide
  have hdrop : (w ++ ' ' :: (data ++ '?' :: '>' :: rest)).dropWhile (· ≠ '?') =
      (data ++ '?' :: '>' :: rest).dropWhile (· ≠ '?') := by
    rw [← List.singleton_append, ← List.append_assoc, List.dropWhile_append_of_pos hrest]
  have hafter : dropPrefix? "<?xml"
      ('<' :: '?' :: 'x' :: 'm' :: 'l' :: d :: (w ++ ' ' :: (data ++ '?' :: '>' :: rest))) =
        some (d :: (w ++ ' ' :: (data ++ '?' :: '>' :: rest))) :=
    dropPrefix?_append "<?xml" _
  rw [afterDeclaration?, hafter]
  simp only [isWhiteSpace_nameChar_iff hd, hdrop, dropPrefix?_question hdata]
  by_cases hogham : d = '\u1680' <;> cases data.contains '?' <;> simp [hogham]

end Text
end Doctype
