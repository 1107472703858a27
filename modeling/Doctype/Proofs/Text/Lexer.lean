import Doctype.Lexer
import Doctype.Proofs.Text.Blank
import Doctype.Proofs.Text.Name

/-!
What each lexer reads of a text and what it leaves. A name, a name token and a keyword are read
whole if nothing behind them prolongs them (`Text.name?_eq_some_iff`,
`Text.nmtoken?_eq_some_iff`, `Lexer.keyword?_eq_some_iff`), blanks up to the next character
that is none (`Lexer.blanks_eq_ok_iff`), and a literal up to the quotation mark that closes it
(`Lexer.quoted_eq_ok_iff`). A name and a name token are the longest that stand at the front of
the text (`Text.name?_eq_some_iff_isLongest`).
-/

namespace Doctype

variable {t r v : Text}

namespace Text

def IsNmtoken (t : Text) : Prop :=
  t ≠ [] ∧ ∀ c ∈ t, isNameChar c = true

theorem isNmtoken_cons_iff {c : Char} :
    IsNmtoken (c :: t) ↔ isNameChar c = true ∧ ∀ d ∈ t, isNameChar d = true := by
  simp [IsNmtoken]

theorem isNmtoken_of_isName (h : isName t = true) : IsNmtoken t := by
  refine ⟨?_, fun c hc => isNameChar_of_mem_name h hc⟩
  rintro rfl
  cases h

theorem IsNmtoken.startsBlank (h : IsNmtoken t) (r : Text) : startsBlank (t ++ r) = false := by
  obtain ⟨c, t, rfl⟩ := List.exists_cons_of_ne_nil h.1
  have hc := h.2 c List.mem_cons_self
  cases hblank : isBlank c with
  | false => exact hblank
  | true =>
      rw [isNameChar_eq_false_of_isBlank hblank] at hc
      cases hc

theorem startsNameChar_dropWhile (t : Text) :
    startsNameChar (t.dropWhile isNameChar) = false := by
  cases hdrop : t.dropWhile isNameChar with
  | nil => rfl
  | cons c r =>
      have hhead := List.head_dropWhile_not isNameChar (l := t) (by simp [hdrop])
      simpa [startsNameChar, hdrop] using hhead

theorem startsNameChar_blanks (hv : ∀ c ∈ v, isBlank c = true)
    (hr : startsNameChar r = false) : startsNameChar (v ++ r) = false := by
  cases v with
  | nil => exact hr
  | cons c v => exact isNameChar_eq_false_of_isBlank (hv c List.mem_cons_self)

theorem name?_eq_some_iff :
    name? t = some (v, r) ↔ t = v ++ r ∧ isName v = true ∧ startsNameChar r = false := by
  constructor
  · intro h
    refine ⟨(name?_eq_some h).1, ?_⟩
    cases t with
    | nil => cases h
    | cons c t =>
        simp only [name?] at h
        split at h
        · next hc =>
          cases h
          have hall : ∀ d ∈ t.takeWhile isNameChar, isNameChar d = true :=
            forall_mem_takeWhile t
          exact ⟨by simp [isName, hc, List.all_eq_true.2 hall], startsNameChar_dropWhile t⟩
        · cases h
  · rintro ⟨rfl, hv, hr⟩
    exact name?_append hv hr

theorem nmtoken?_eq_some_iff :
    nmtoken? t = some (v, r) ↔ t = v ++ r ∧ IsNmtoken v ∧ startsNameChar r = false := by
  constructor
  · intro h
    refine ⟨(nmtoken?_eq_some h).1, ?_⟩
    cases t with
    | nil => cases h
    | cons c t =>
        simp only [nmtoken?] at h
        split at h
        · next hc =>
          cases h
          exact ⟨isNmtoken_cons_iff.2 ⟨hc, forall_mem_takeWhile t⟩, startsNameChar_dropWhile t⟩
        · cases h
  · rintro ⟨rfl, hv, hr⟩
    obtain ⟨c, v, rfl⟩ := List.exists_cons_of_ne_nil hv.1
    obtain ⟨hc, hv⟩ := isNmtoken_cons_iff.1 hv
    obtain ⟨htake, hdrop⟩ := span_isNameChar (List.all_eq_true.2 hv) hr
    simp only [List.cons_append, nmtoken?, hc, if_true, htake, hdrop]

/-- Of the beginnings of a text that have a property, `n` is the longest. -/
structure IsLongest (P : Text → Prop) (t n : Text) : Prop where
  isPrefix : n <+: t
  property : P n
  longest : ∀ m, m <+: t → P m → m <+: n

theorem isLongest_self_iff {P : Text → Prop} : IsLongest P t t ↔ P t :=
  ⟨fun h => h.property, fun h => ⟨List.prefix_rfl, h, fun _ hm _ => hm⟩⟩

/-- A class of texts of name characters to which more of them may be added. -/
structure IsProlonged (P : Text → Prop) : Prop where
  forall_mem : ∀ n, P n → ∀ c ∈ n, isNameChar c = true
  concat : ∀ n c, P n → isNameChar c = true → P (n ++ [c])

theorem isProlonged_isName : IsProlonged (isName · = true) where
  forall_mem _ hn _ hc := isNameChar_of_mem_name hn hc
  concat n c hn hc := by
    cases n with
    | nil => cases hn
    | cons d n =>
        obtain ⟨hd, hn⟩ := isNameStart_of_isName hn
        simp [isName, hd, List.all_append, hn, hc]

theorem isProlonged_isNmtoken : IsProlonged IsNmtoken where
  forall_mem _ hn := hn.2
  concat n c hn hc := by
    refine ⟨by simp, fun d hd => ?_⟩
    rcases List.mem_append.1 hd with hd | hd
    · exact hn.2 d hd
    · exact List.mem_singleton.1 hd ▸ hc

/-- The longest is what nothing prolongs. -/
theorem IsProlonged.isLongest_iff {P : Text → Prop} (h : IsProlonged P) {n : Text} :
    IsLongest P (n ++ r) n ↔ P n ∧ startsNameChar r = false := by
  constructor
  · rintro ⟨-, hn, hlongest⟩
    refine ⟨hn, ?_⟩
    cases r with
    | nil => rfl
    | cons c r =>
        cases hc : isNameChar c with
        | false => exact hc
        | true =>
            have hprefix : n ++ [c] <+: n ++ c :: r := ⟨r, by simp⟩
            have hlength := (hlongest _ hprefix (h.concat n c hn hc)).length_le
            rw [List.length_append, List.length_singleton] at hlength
            omega
  · rintro ⟨hn, hr⟩
    refine ⟨List.prefix_append n r, hn, fun m hm hP => ?_⟩
    rcases List.prefix_or_prefix_of_prefix hm (List.prefix_append n r) with hprefix | ⟨w, rfl⟩
    · exact hprefix
    · cases w with
      | nil => simp
      | cons c w =>
          -- what prolongs `n` would begin with the first character of what is left
          obtain ⟨v, hv⟩ := (List.prefix_append_right_inj n).1 hm
          have hc : isNameChar c = true := h.forall_mem _ hP c (by simp)
          have hstop : isNameChar c = false := by
            rw [← hv] at hr
            exact hr
          rw [hc] at hstop
          cases hstop

theorem name?_eq_some_iff_isLongest :
    name? t = some (v, r) ↔ t = v ++ r ∧ IsLongest (isName · = true) t v := by
  rw [name?_eq_some_iff]
  refine and_congr_right fun ht => ?_
  rw [ht, isProlonged_isName.isLongest_iff]

theorem nmtoken?_eq_some_iff_isLongest :
    nmtoken? t = some (v, r) ↔ t = v ++ r ∧ IsLongest IsNmtoken t v := by
  rw [nmtoken?_eq_some_iff]
  refine and_congr_right fun ht => ?_
  rw [ht, isProlonged_isNmtoken.isLongest_iff]

theorem name?_eq_none_iff : name? t = none ↔ ∀ n, n <+: t → isName n = false := by
  cases t with
  | nil => simp [name?, isName]
  | cons c t =>
      cases hc : isNameStart c with
      | true =>
          have hone : isName [c] = true := by simp [isName, hc]
          refine iff_of_false (by simp [name?, hc]) fun h => ?_
          rw [h [c] ⟨t, rfl⟩] at hone
          cases hone
      | false =>
          refine iff_of_true (by simp [name?, hc]) fun n hn => ?_
          cases n with
          | nil => rfl
          | cons d n =>
              obtain ⟨rfl, -⟩ := List.cons_prefix_cons.1 hn
              simp [isName, hc]

end Text

namespace Lexer

open Text (startsBlank startsNameChar skipBlanks)

theorem blanks_eq_ok_iff {fault : Fault} {u : Unit} :
    blanks fault t = .ok (u, r) ↔
      startsBlank r = false ∧ ∃ s, t = s ++ r ∧ s ≠ [] ∧ ∀ c ∈ s, isBlank c = true := by
  have hstarts : startsBlank t = true ↔ skipBlanks t ≠ t := by
    cases t with
    | nil => simp [startsBlank, skipBlanks]
    | cons c t =>
        cases hc : isBlank c with
        | false => simp [startsBlank, skipBlanks, hc]
        | true =>
            have hshort := (Text.skipBlanks_suffix t).length_le
            have hne : skipBlanks t ≠ c :: t := fun heq => by
              rw [heq, List.length_cons] at hshort
              omega
            simpa [startsBlank, skipBlanks, hc] using hne
  unfold blanks
  constructor
  · intro h
    split at h
    · next hblank =>
      cases h
      obtain ⟨hrest, s, heq, hs⟩ := Text.skipBlanks_eq_iff.1 rfl
      refine ⟨hrest, s, heq, ?_, hs⟩
      rintro rfl
      exact hstarts.1 hblank heq.symm
    · cases h
  · rintro ⟨hr, s, rfl, hne, hs⟩
    obtain ⟨c, s, rfl⟩ := List.exists_cons_of_ne_nil hne
    have hblank : startsBlank (c :: s ++ r) = true := hs c List.mem_cons_self
    rw [if_pos hblank, Text.skipBlanks_append hs hr]

theorem keyword?_eq_some_iff {keyword : Text} :
    keyword? keyword t = some r ↔ t = keyword ++ r ∧ startsNameChar r = false := by
  unfold keyword?
  constructor
  · intro h
    split at h
    · next rest hrest =>
      split at h
      · cases h
      · next hends =>
        cases h
        exact ⟨Text.dropPrefix?_eq_some hrest, by simpa using hends⟩
    · cases h
  · rintro ⟨rfl, hends⟩
    simp [Text.dropPrefix?_append, hends]

theorem keyword?_eq_none {keyword : Text} (h : ¬ keyword <+: t) :
    keyword? keyword t = none := by
  cases hread : keyword? keyword t with
  | none => rfl
  | some r => exact absurd ⟨r, (keyword?_eq_some_iff.1 hread).1.symm⟩ h

theorem utf8Size_of_isQuote {q : Char} (hq : isQuote q = true) : q.utf8Size = 1 := by
  simp only [isQuote, Bool.or_eq_true, decide_eq_true_eq] at hq
  rcases hq with rfl | rfl <;> rfl

theorem quoted_eq_ok_iff :
    quoted t = .ok (v, r) ↔ ∃ q, isQuote q = true ∧ q ∉ v ∧ t = q :: (v ++ q :: r) := by
  constructor
  · intro h
    unfold quoted at h
    split at h
    · cases h
    · next q t =>
      split at h
      · next hq =>
        split at h
        · cases h
        · next e rest hdrop =>
          cases h
          have hrun : ∀ c ∈ t.takeWhile (· ≠ q), c ≠ q := fun c hc => by
            simpa using List.mem_takeWhile_imp hc
          have hend : e = q := by
            have hhead :=
              List.head_dropWhile_not (fun c => decide (c ≠ q)) (l := t) (by rw [hdrop]; simp)
            simp only [hdrop, List.head_cons, decide_eq_false_iff_not, not_not] at hhead
            exact hhead
          refine ⟨q, hq, fun hmem => hrun q hmem rfl, ?_⟩
          rw [← hend, ← hdrop, hend, List.takeWhile_append_dropWhile]
      · cases h
  · rintro ⟨q, hq, hv, rfl⟩
    have hne : ∀ c ∈ v, decide (c ≠ q) = true := fun c hc => by
      simpa using ne_of_mem_of_not_mem hc hv
    obtain ⟨htake, hdrop⟩ : (v ++ q :: r).takeWhile (· ≠ q) = v ∧
        (v ++ q :: r).dropWhile (· ≠ q) = q :: r := by
      rw [List.takeWhile_append_of_pos hne, List.dropWhile_append_of_pos hne]
      simp
    simp only [quoted, hq, if_true, htake, hdrop]

end Lexer
end Doctype
