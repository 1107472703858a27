import Mathlib.Data.List.TakeWhile
import Doctype.Name

/-!
Trimming, skipping and splitting, said by what they leave. A text is what trimming leaves of it
between two runs of the class (`exists_append_trimBy`), and a text without the class is left as
it is, whatever runs stand around it (`trimBy_append`). Skipping leaves what stands behind a
run of blanks (`skipBlanks_eq_iff`). The words of a text are its longest runs of characters
that are no white space (`mem_words_iff`).
-/

namespace Doctype.Text

variable {inClass : Char → Bool}

theorem forall_mem_takeWhile (s : Text) : ∀ c ∈ s.takeWhile inClass, inClass c = true :=
  fun _ hc => List.mem_takeWhile_imp hc

/-- What trimming takes away from a text are characters of the class at its two ends. -/
theorem exists_append_trimBy (inClass : Char → Bool) (t : Text) :
    ∃ a b, t = a ++ trimBy inClass t ++ b ∧ (∀ c ∈ a, inClass c = true) ∧
      ∀ c ∈ b, inClass c = true := by
  let u := t.dropWhile inClass
  refine ⟨t.takeWhile inClass, (u.reverse.takeWhile inClass).reverse, ?_,
    forall_mem_takeWhile t, ?_⟩
  · have hu : u = (u.reverse.dropWhile inClass).reverse ++
        (u.reverse.takeWhile inClass).reverse := by
      rw [← List.reverse_append, List.takeWhile_append_dropWhile, List.reverse_reverse]
    calc
      t = t.takeWhile inClass ++ u := List.takeWhile_append_dropWhile.symm
      _ = t.takeWhile inClass ++
          ((u.reverse.dropWhile inClass).reverse ++
            (u.reverse.takeWhile inClass).reverse) := by
        rw [← hu]
      _ = _ := (List.append_assoc _ _ _).symm
  · intro c hc
    exact forall_mem_takeWhile _ c (List.mem_reverse.1 hc)

theorem mem_trimBy {t : Text} {c : Char} (hc : c ∈ t) (hclass : inClass c = false) :
    c ∈ trimBy inClass t := by
  obtain ⟨a, b, ht, ha, hb⟩ := exists_append_trimBy inClass t
  rw [ht] at hc
  rcases List.mem_append.1 hc with hc | hc
  · rcases List.mem_append.1 hc with hc | hc
    · simp [ha c hc] at hclass
    · exact hc
  · simp [hb c hc] at hclass

theorem trimBy_eq_nil_iff {t : Text} : trimBy inClass t = [] ↔ ∀ c ∈ t, inClass c = true := by
  constructor
  · intro h c hc
    obtain ⟨a, b, ht, ha, hb⟩ := exists_append_trimBy inClass t
    rw [ht, h, List.append_nil] at hc
    rcases List.mem_append.1 hc with hc | hc
    · exact ha c hc
    · exact hb c hc
  · intro h
    rw [trimBy, List.dropWhile_eq_nil_iff.2 h]
    rfl

/-- Trimming takes away what stands around a text whose ends are not of the class. -/
theorem trimBy_append_of_ends {a n b : Text} (ha : ∀ c ∈ a, inClass c = true)
    (hhead : ∀ c ∈ n.head?, inClass c = false) (hlast : ∀ c ∈ n.getLast?, inClass c = false)
    (hb : ∀ c ∈ b, inClass c = true) (hne : n ≠ []) : trimBy inClass (a ++ n ++ b) = n := by
  have hdrop {s r : Text} (hs : ∀ c ∈ s, inClass c = true)
      (hr : ∀ c ∈ r.head?, inClass c = false) : (s ++ r).dropWhile inClass = r := by
    rw [List.dropWhile_append_of_pos hs]
    cases r with
    | nil => rfl
    | cons c r => simp [hr c (by simp)]
  have hfront : ∀ c ∈ (n ++ b).head?, inClass c = false := by
    obtain ⟨d, s, rfl⟩ := List.exists_cons_of_ne_nil hne
    exact hhead
  unfold trimBy
  rw [List.append_assoc, hdrop ha hfront, List.reverse_append,
    hdrop (fun c hc => hb c (List.mem_reverse.1 hc)), List.reverse_reverse]
  simpa using hlast

/-- Trimming takes away what stands around a text without characters of the class. -/
theorem trimBy_append {a n b : Text} (ha : ∀ c ∈ a, inClass c = true)
    (hn : ∀ c ∈ n, inClass c = false) (hb : ∀ c ∈ b, inClass c = true) (hne : n ≠ []) :
    trimBy inClass (a ++ n ++ b) = n :=
  trimBy_append_of_ends ha (fun c hc => hn c (List.mem_of_mem_head? hc))
    (fun c hc => hn c (List.mem_of_mem_getLast? hc)) hb hne

/-! ### Leading blanks -/

theorem skipBlanks_append {a t : Text} (ha : ∀ c ∈ a, isBlank c = true)
    (ht : startsBlank t = false) : skipBlanks (a ++ t) = t := by
  rw [skipBlanks, List.dropWhile_append_of_pos ha]
  cases t with
  | nil => rfl
  | cons c t =>
      have hc : isBlank c = false := ht
      simp [hc]

theorem startsBlank_skipBlanks (t : Text) : startsBlank (skipBlanks t) = false := by
  cases hskip : skipBlanks t with
  | nil => rfl
  | cons c r =>
      have hdrop : t.dropWhile isBlank = c :: r := hskip
      have hhead := List.head_dropWhile_not isBlank (l := t) (by simp [hdrop])
      simpa [startsBlank, hdrop] using hhead

theorem skipBlanks_skipBlanks (t : Text) : skipBlanks (skipBlanks t) = skipBlanks t :=
  skipBlanks_append (a := []) (by simp) (startsBlank_skipBlanks t)

/-- What is left behind the leading blanks of a text. -/
theorem skipBlanks_eq_iff {t r : Text} :
    skipBlanks t = r ↔ startsBlank r = false ∧ ∃ s, t = s ++ r ∧
      ∀ c ∈ s, isBlank c = true := by
  constructor
  · rintro rfl
    exact ⟨startsBlank_skipBlanks t, t.takeWhile isBlank, List.takeWhile_append_dropWhile.symm,
      forall_mem_takeWhile t⟩
  · rintro ⟨hr, s, rfl, hs⟩
    exact skipBlanks_append hs hr

/-! ### Words -/

/-- `IsRun inClass w t`: the text `w` is a run of characters outside the class that stands
somewhere in `t` and cannot be made longer there. -/
def IsRun (inClass : Char → Bool) (w t : Text) : Prop :=
  w ≠ [] ∧ (∀ c ∈ w, inClass c = false) ∧ ∃ a b, t = a ++ w ++ b ∧
    (∀ c ∈ a.getLast?, inClass c = true) ∧ ∀ c ∈ b.head?, inClass c = true

theorem not_isRun_nil {w : Text} : ¬ IsRun inClass w [] := by
  rintro ⟨hw, -, a, b, h, -, -⟩
  simp [hw] at h

theorem exists_cut (inClass : Char → Bool) (t : Text) :
    (∀ c ∈ t, inClass c = false) ∨
      ∃ u s rest, t = u ++ s :: rest ∧ (∀ c ∈ u, inClass c = false) ∧ inClass s = true := by
  induction t with
  | nil => exact .inl (by simp)
  | cons c t ih =>
      cases hc : inClass c with
      | true => exact .inr ⟨[], c, t, rfl, by simp, hc⟩
      | false =>
          rcases ih with hall | ⟨u, s, rest, rfl, hu, hs⟩
          · exact .inl (by simpa using ⟨hc, hall⟩)
          · exact .inr ⟨c :: u, s, rest, rfl, by simpa using ⟨hc, hu⟩, hs⟩

theorem join_cons_cons (separator part next : Text) (parts : List Text) :
    join separator (part :: next :: parts) =
      part ++ separator ++ join separator (next :: parts) :=
  List.intercalate_cons_cons

theorem splitBy_cons (inClass : Char → Bool) (c : Char) (t : Text) :
    ∃ part parts, splitBy inClass t = part :: parts ∧
      splitBy inClass (c :: t) =
        if inClass c then [] :: part :: parts else (c :: part) :: parts := by
  induction t generalizing c with
  | nil => exact ⟨[], [], rfl, rfl⟩
  | cons d t ih =>
      obtain ⟨part, parts, -, hd⟩ := ih d
      have hcons : ∃ part parts, splitBy inClass (d :: t) = part :: parts := by
        rw [hd]
        split <;> exact ⟨_, _, rfl⟩
      obtain ⟨part, parts, ht⟩ := hcons
      refine ⟨part, parts, ht, ?_⟩
      unfold splitBy at ht ⊢
      rw [List.foldr_cons, ht]

theorem splitBy_of_forall {t : Text} (h : ∀ c ∈ t, inClass c = false) :
    splitBy inClass t = [t] := by
  induction t with
  | nil => rfl
  | cons c t ih =>
      obtain ⟨part, parts, ht, hct⟩ := splitBy_cons inClass c t
      rw [ih fun d hd => h d (by simp [hd])] at ht
      cases ht
      simp [hct, h c (by simp)]

theorem splitBy_append_cons {u rest : Text} {s : Char} (hu : ∀ c ∈ u, inClass c = false)
    (hs : inClass s = true) :
    splitBy inClass (u ++ s :: rest) = u :: splitBy inClass rest := by
  induction u with
  | nil =>
      obtain ⟨part, parts, ht, hst⟩ := splitBy_cons inClass s rest
      simp [hst, ht, hs]
  | cons c u ih =>
      obtain ⟨part, parts, ht, hct⟩ := splitBy_cons inClass c (u ++ s :: rest)
      rw [ih fun d hd => hu d (by simp [hd])] at ht
      cases ht
      simp [hct, hu c (by simp)]

theorem forall_getLast?_append_cons {u a : Text} {s : Char} (hs : inClass s = true) :
    (∀ c ∈ (u ++ s :: a).getLast?, inClass c = true) ↔ ∀ c ∈ a.getLast?, inClass c = true := by
  cases ha : a.getLast? with
  | none => simp [List.getLast?_append, List.getLast?_cons, ha, hs]
  | some d => simp [List.getLast?_append, List.getLast?_cons, ha]

theorem isRun_of_mem_splitBy {t w : Text} (hw : w ≠ []) (h : w ∈ splitBy inClass t) :
    IsRun inClass w t := by
  induction hn : t.length using Nat.strong_induction_on generalizing t with
  | _ n ih =>
      rcases exists_cut inClass t with hall | ⟨u, s, rest, rfl, hu, hs⟩
      · obtain rfl : w = t := by simpa [splitBy_of_forall hall] using h
        exact ⟨hw, hall, [], [], by simp, by simp, by simp⟩
      · rw [splitBy_append_cons hu hs] at h
        rcases List.mem_cons.1 h with rfl | h
        · exact ⟨hw, hu, [], s :: rest, by simp, by simp, by simpa using hs⟩
        · have hlen : rest.length < n := by
            simp only [← hn, List.length_append, List.length_cons]
            omega
          obtain ⟨-, hclass, a, b, rfl, ha, hb⟩ := ih _ hlen h rfl
          exact ⟨hw, hclass, u ++ s :: a, b, by simp,
            (forall_getLast?_append_cons hs).2 ha, hb⟩

theorem mem_splitBy_of_isRun {t w : Text} (h : IsRun inClass w t) : w ∈ splitBy inClass t := by
  obtain ⟨hw, hclass, a, b, rfl, ha, hb⟩ := h
  induction hn : a.length using Nat.strong_induction_on generalizing a with
  | _ n ih =>
      rcases exists_cut inClass a with hall | ⟨u, s, rest, rfl, hu, hs⟩
      · -- what stands in front of the run ends in the class, so nothing does
        have hnil : a = [] := by
          by_contra hne
          have hlast := ha _ (List.getLast?_eq_some_getLast hne)
          rw [hall _ (List.getLast_mem hne)] at hlast
          cases hlast
        subst hnil
        cases b with
        | nil => simp [splitBy_of_forall hclass]
        | cons s b => simp [splitBy_append_cons hclass (hb s rfl)]
      · -- the first cut is in front of the run, so the run is left in what is behind it
        have hlen : rest.length < n := by
          simp only [← hn, List.length_append, List.length_cons]
          omega
        rw [List.append_assoc, List.append_assoc, List.cons_append, splitBy_append_cons hu hs,
          ← List.append_assoc]
        exact List.mem_cons_of_mem _
          (ih _ hlen rest ((forall_getLast?_append_cons hs).1 ha) rfl)

/-- The words of a text are its longest runs of characters that are no white space. -/
theorem mem_words_iff {w t : Text} : w ∈ words t ↔ IsRun isWhiteSpace w t := by
  have hne : (!w.isEmpty) = true ↔ w ≠ [] := by simp
  rw [words, List.mem_filter, hne]
  constructor
  · rintro ⟨hmem, hw⟩
    exact isRun_of_mem_splitBy hw hmem
  · intro h
    exact ⟨mem_splitBy_of_isRun h, h.1⟩

end Doctype.Text
