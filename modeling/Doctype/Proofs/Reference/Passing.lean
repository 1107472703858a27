import Doctype.Proofs.Markup.Size
import Doctype.Proofs.Reference.Recognition

/-!
The expansion of character references as one pass over a text. A text is cut from left to right
into references (`Numbers`) and characters at which none begins, and every piece stands for
itself or for the character that it numbers (`Passes`). No reference reaches over an ampersand,
so what stands in front of a reference is expanded as if the text ended there, and what stands
behind it as if the text began there (`expandChars_append_reference`).
-/

namespace Doctype.Reference

variable {r t u rest out body : Text} {n : Nat} {c : Char}

/-- `Numbers r n`: the text `r` is a character reference, and the digits in it write the number
`n`. -/
inductive Numbers : Text → Nat → Prop
  | decimal {d : Text} : d ≠ [] → (∀ c ∈ d, Text.isDigit 10 c = true) →
      Numbers ('&' :: '#' :: (d ++ [';'])) (Text.ofDigits 10 d)
  | hexadecimal {d : Text} : d ≠ [] → (∀ c ∈ d, Text.isDigit 16 c = true) →
      Numbers ('&' :: '#' :: 'x' :: (d ++ [';'])) (Text.ofDigits 16 d)

/-- What a reference with a number stands for: the character that has the number, or the
reference as it is written if no character has it. -/
def standsFor (r : Text) (n : Nat) : Text :=
  (Text.charOfCode? n).elim r ([·])

/-- `Passes t out`: the text `t` is cut into references and other characters, and `out` is what
these stand for. -/
inductive Passes : Text → Text → Prop
  | nil : Passes [] []
  | reference {r rest out : Text} {n : Nat} :
      Numbers r n → Passes rest out → Passes (r ++ rest) (standsFor r n ++ out)
  | character {c : Char} {t out : Text} :
      (∀ r n, Numbers r n → ¬r <+: c :: t) → Passes t out → Passes (c :: t) (c :: out)

/-! ### Numbers and characters -/

theorem charOfCode?_toNat (c : Char) : Text.charOfCode? c.toNat = some c := by
  have hvalid : c.toNat.isValidChar := c.valid
  rw [Text.charOfCode?, if_pos hvalid, Char.ofNat_toNat]

theorem standsFor_toNat (r : Text) (c : Char) : standsFor r c.toNat = [c] := by
  rw [standsFor, charOfCode?_toNat]
  rfl

theorem standsFor_of_not_isValidChar (r : Text) (hn : ¬n.isValidChar) : standsFor r n = r := by
  rw [standsFor, Text.charOfCode?, if_neg hn]
  rfl

theorem not_isValidChar_of_size_le (hn : UInt32.size ≤ n) : ¬n.isValidChar := by
  have hsize : UInt32.size = 4294967296 := rfl
  rintro (hlow | ⟨-, hhigh⟩)
  · omega
  · omega

/-! ### References as they are written -/

theorem isDigit_ampersand (base : Nat) : Text.isDigit base '&' = false := by
  simp [Text.isDigit, Text.digit?]

theorem ne_of_isDigit {base : Nat} {d : Text} {e : Char}
    (hd : ∀ c ∈ d, Text.isDigit base c = true) (he : Text.isDigit base e = false) : e ∉ d := by
  intro hmem
  have hdigit := hd e hmem
  rw [he] at hdigit
  cases hdigit

theorem number?_of_forall {base : Nat} {d : Text} (hne : d ≠ [])
    (hd : ∀ c ∈ d, Text.isDigit base c = true) :
    Text.number? base d = some (Text.ofDigits base d) ∧ d.head? ≠ some '+' := by
  have hsign : d.head? ≠ some '+' := fun hhead =>
    ne_of_isDigit hd (isDigit_plus base) (List.mem_of_head? hhead)
  refine ⟨?_, hsign⟩
  rw [number?_of_head? hsign, Text.digits?, if_pos ⟨hne, List.all_eq_true.2 hd⟩]

/-- A reference is a body up to its semicolon that is decoded to the character with its
number. -/
theorem Numbers.exists_body (h : Numbers r n) :
    ∃ body, r = '&' :: (body ++ [';']) ∧ '&' ∉ body ∧ ';' ∉ body ∧
      isSigned body = false ∧ decode body = Text.charOfCode? n := by
  cases h with
  | @decimal d hne hd =>
      obtain ⟨hnumber, hsign⟩ := number?_of_forall hne hd
      have hampersand := ne_of_isDigit hd (isDigit_ampersand 10)
      have hsemicolon := ne_of_isDigit hd (isDigit_semicolon 10)
      -- the first digit is not the mark of hexadecimal numbers
      have hmark : 'x' ∉ d := ne_of_isDigit hd (by decide)
      obtain ⟨e, d, rfl⟩ := List.exists_cons_of_ne_nil hne
      have he : e ≠ 'x' := fun heq => hmark (heq ▸ List.mem_cons_self)
      have hplus : e ≠ '+' := fun heq => hsign (heq ▸ rfl)
      refine ⟨'#' :: e :: d, rfl, by simpa using hampersand, by simpa using hsemicolon, ?_, ?_⟩
      · simp [isSigned, he, hplus]
      · simp [decode, he, hnumber]
  | @hexadecimal d hne hd =>
      obtain ⟨hnumber, hsign⟩ := number?_of_forall hne hd
      have hampersand := ne_of_isDigit hd (isDigit_ampersand 16)
      have hsemicolon := ne_of_isDigit hd (isDigit_semicolon 16)
      obtain ⟨e, d, rfl⟩ := List.exists_cons_of_ne_nil hne
      have hplus : e ≠ '+' := fun heq => hsign (heq ▸ rfl)
      refine ⟨'#' :: 'x' :: e :: d, rfl, by simpa using hampersand, by simpa using
        hsemicolon, ?_, ?_⟩
      · simp [isSigned, hplus]
      · simp [decode, hnumber]

/-- What is read behind an ampersand is a reference. -/
theorem exists_numbers_of_char? (h : char? t = some (c, rest)) :
    ∃ r n, Numbers r n ∧ '&' :: t = r ++ rest ∧ Text.charOfCode? n = some c := by
  have hdigits {base : Nat} {t : Text} (h : digitsThenEnd? base t = some (c, rest)) :
      ∃ d, t = d ++ ';' :: rest ∧ d ≠ [] ∧ (∀ e ∈ d, Text.isDigit base e = true) ∧
        Text.charOfCode? (Text.ofDigits base d) = some c := by
    obtain ⟨d, rfl, hd⟩ := exists_of_digitsThenEnd?_eq_some h
    rw [digitsThenEnd?_append hd] at h
    obtain ⟨e, he, heq⟩ := Option.map_eq_some_iff.1 h
    cases heq
    obtain ⟨m, hm, hcode⟩ := Option.bind_eq_some_iff.1 he
    unfold Text.digits? at hm
    split at hm
    · next hall =>
      cases hm
      exact ⟨d, rfl, hall.1, List.all_eq_true.1 hall.2, hcode⟩
    · cases hm
  unfold char? at h
  split at h
  · obtain ⟨d, rfl, hne, hd, hcode⟩ := hdigits h
    exact ⟨_, _, .hexadecimal hne hd, by simp, hcode⟩
  · obtain ⟨d, rfl, hne, hd, hcode⟩ := hdigits h
    exact ⟨_, _, .decimal hne hd, by simp, hcode⟩
  · cases h

/-! ### What stands around an ampersand -/

/-- No reference reaches over an ampersand. -/
theorem char?_append_ampersand (a t : Text) :
    char? (a ++ '&' :: t) = (char? a).map fun p => (p.1, p.2 ++ '&' :: t) := by
  by_cases hsemicolon : ';' ∈ a
  · obtain ⟨body, rest, rfl, hbody⟩ := List.eq_append_cons_of_mem hsemicolon
    rw [List.append_assoc, List.cons_append, char?_append hbody, char?_append hbody]
    split
    · rfl
    · rw [Option.map_map]
      rfl
  · have hnone : char? a = none := by
      rw [Option.eq_none_iff_forall_ne_some]
      rintro ⟨c, rest⟩ h
      obtain ⟨body, rfl, -⟩ := exists_of_char?_eq_some h
      exact hsemicolon (by simp)
    rw [hnone, Option.map_none, Option.eq_none_iff_forall_ne_some]
    rintro ⟨c, rest⟩ h
    obtain ⟨body, heq, -, -, hdecode⟩ := exists_of_char?_eq_some h
    have hampersand := ampersand_notMem_of_decode hdecode
    -- the body would end in front of the ampersand, where there is no semicolon, or behind it
    rcases List.append_eq_append_iff.1 heq with ⟨w, rfl, hw⟩ | ⟨w, rfl, hw⟩
    · cases w with
      | nil => exact absurd (List.cons.inj hw).1 (by decide)
      | cons d w =>
          obtain ⟨rfl, -⟩ := List.cons.inj hw
          exact hampersand (by simp)
    · cases w with
      | nil => exact absurd (List.cons.inj hw).1 (by decide)
      | cons d w =>
          obtain ⟨rfl, -⟩ := List.cons.inj hw
          exact hsemicolon (by simp)

/-- What stands in front of an ampersand is expanded as if the text ended there. -/
theorem expandChars_append_ampersand (a t : Text) :
    expandChars (a ++ '&' :: t) = expandChars a ++ expandChars ('&' :: t) := by
  induction a using chars_induction with
  | nil => simp
  | reference a c rest h ih =>
      have hread : char? (a ++ '&' :: t) = some (c, rest ++ '&' :: t) := by
        rw [char?_append_ampersand, h]
        rfl
      rw [List.cons_append, expandChars_of_char? hread, expandChars_of_char? h, ih,
        List.cons_append]
  | ampersand a h ih =>
      have hread : char? (a ++ '&' :: t) = none := by
        rw [char?_append_ampersand, h]
        rfl
      rw [List.cons_append, expandChars_ampersand hread, expandChars_ampersand h, ih,
        List.cons_append]
  | cons c a hc ih =>
      rw [List.cons_append, expandChars_cons hc, expandChars_cons hc, ih, List.cons_append]

theorem expandChars_append_of_notMem (hu : '&' ∉ u) (t : Text) :
    expandChars (u ++ t) = u ++ expandChars t := by
  induction u with
  | nil => rfl
  | cons c u ih =>
      obtain ⟨hc, hu⟩ := not_or.1 (mt List.mem_cons.2 hu)
      rw [List.cons_append, expandChars_cons (Ne.symm hc), ih hu, List.cons_append]

/-- What stands behind a reference is expanded as if the text began there. -/
theorem Numbers.expandChars_append (h : Numbers r n) (t : Text) :
    expandChars (r ++ t) = standsFor r n ++ expandChars t := by
  obtain ⟨body, rfl, hampersand, hsemicolon, hsign, hdecode⟩ := h.exists_body
  have hread : char? (body ++ ';' :: t) = (Text.charOfCode? n).map (·, t) := by
    rw [char?_append hsemicolon, hsign, if_neg Bool.false_ne_true, hdecode]
  have htext : '&' :: (body ++ [';']) ++ t = '&' :: (body ++ ';' :: t) := by simp
  rw [htext, standsFor]
  cases hcode : Text.charOfCode? n with
  | some c =>
      rw [hcode] at hread
      exact expandChars_of_char? hread
  | none =>
      rw [hcode] at hread
      have hrest : '&' ∉ body ++ [';'] := by simpa using hampersand
      rw [expandChars_ampersand hread, List.append_cons, expandChars_append_of_notMem hrest]
      rfl

/-- A reference is expanded where it stands, whatever is around it. -/
theorem expandChars_append_reference (h : Numbers r n) (a b : Text) :
    expandChars (a ++ r ++ b) = expandChars a ++ standsFor r n ++ expandChars b := by
  obtain ⟨body, rfl, -⟩ := h.exists_body
  rw [List.append_assoc, List.append_assoc, ← h.expandChars_append]
  exact expandChars_append_ampersand a _

/-! ### One pass -/

theorem expandChars_character (h : ∀ r n, Numbers r n → ¬r <+: c :: t) :
    expandChars (c :: t) = c :: expandChars t := by
  by_cases hc : c = '&'
  · subst hc
    refine expandChars_ampersand (Option.eq_none_iff_forall_ne_some.2 ?_)
    rintro ⟨c, rest⟩ hread
    obtain ⟨r, n, hr, heq, -⟩ := exists_numbers_of_char? hread
    exact h r n hr ⟨rest, heq.symm⟩
  · exact expandChars_cons hc

theorem Passes.eq_expandChars (h : Passes t out) : out = expandChars t := by
  induction h with
  | nil => exact expandChars_nil.symm
  | reference hr _ ih => rw [hr.expandChars_append, ih]
  | character hnone _ ih => rw [expandChars_character hnone, ih]

/-- Every text can be cut into references and other characters. -/
theorem exists_passes (t : Text) : ∃ out, Passes t out := by
  by_cases hr : ∃ r n, Numbers r n ∧ r <+: t
  · obtain ⟨r, n, hr, rest, rfl⟩ := hr
    have hshort : rest.length < (r ++ rest).length := by
      obtain ⟨body, rfl, -⟩ := hr.exists_body
      rw [List.length_append, List.length_cons]
      omega
    obtain ⟨out, hout⟩ := exists_passes rest
    exact ⟨_, .reference hr hout⟩
  · cases t with
    | nil => exact ⟨[], .nil⟩
    | cons c t =>
        obtain ⟨out, hout⟩ := exists_passes t
        exact ⟨c :: out, .character (fun r n hnumbers hpre => hr ⟨r, n, hnumbers, hpre⟩) hout⟩
termination_by t.length

theorem passes_iff : Passes t out ↔ out = expandChars t := by
  refine ⟨Passes.eq_expandChars, ?_⟩
  rintro rfl
  obtain ⟨out, hout⟩ := exists_passes t
  rwa [hout.eq_expandChars] at hout

theorem passes_self (h : ∀ r n, Numbers r n → ¬r <:+: t) : Passes t t := by
  induction t with
  | nil => exact .nil
  | cons c t ih =>
      have hfront (r : Text) (n : Nat) (hr : Numbers r n) : ¬r <+: c :: t :=
        fun hpre => h r n hr hpre.isInfix
      have hrest (r : Text) (n : Nat) (hr : Numbers r n) : ¬r <:+: t := fun hwithin =>
        h r n hr (hwithin.trans (List.suffix_cons c t).isInfix)
      exact .character hfront (ih hrest)

/-- Character references are expanded in one pass. A reference between any two texts becomes
the character that it numbers, and stays as it is written if its number has more than 32 bits
or is no code point of a character; what is around it is expanded as if it stood alone. A text
without references stays. The pass cuts the text, never what it has written, and the text does
not become longer. -/
theorem expandChars_singlePass :
    (∀ (a b r : Text) (n : Nat), Numbers r n →
      (∀ c : Char, c.toNat = n →
        expandChars (a ++ r ++ b) = expandChars a ++ c :: expandChars b) ∧
      (UInt32.size ≤ n ∨ ¬n.isValidChar →
        expandChars (a ++ r ++ b) = expandChars a ++ r ++ expandChars b)) ∧
    (∀ t : Text, (∀ r n, Numbers r n → ¬r <:+: t) → expandChars t = t) ∧
    (∀ t out : Text, Passes t out ↔ out = expandChars t) ∧
    ∀ t : Text, Text.size (expandChars t) ≤ Text.size t := by
  refine ⟨fun a b r n hr => ⟨?_, fun hn => ?_⟩, fun t h => (passes_self h).eq_expandChars.symm,
    fun t out => passes_iff, size_expandChars_le⟩
  · rintro c rfl
    rw [expandChars_append_reference hr, standsFor_toNat, List.append_assoc,
      List.singleton_append]
  · have hinvalid : ¬n.isValidChar := hn.elim not_isValidChar_of_size_le id
    rw [expandChars_append_reference hr, standsFor_of_not_isValidChar r hinvalid]

/-- Behind the beginning of a reference stands one to the ampersand, which would make another
reference of what follows if it were read again; one to a surrogate stays. -/
theorem expandChars_singlePass_ampersand :
    let text : Text := "&#6&#38;#60;&#xD800;"
    Numbers "&#38;" 38 ∧ Numbers "&#xD800;" 0xD800 ∧
      expandChars text = "&#6&#60;&#xD800;".toList ∧
      (∀ out, Passes text out ↔ out = "&#6&#60;&#xD800;".toList) := by
  intro text
  have hampersand : Numbers "&#38;" 38 :=
    .decimal (d := "38".toList) (by decide) (List.all_eq_true.1 (by decide))
  have hsurrogate : Numbers "&#xD800;" 0xD800 :=
    .hexadecimal (d := "D800".toList) (by decide) (List.all_eq_true.1 (by decide))
  obtain ⟨hreference, hself, hpasses, -⟩ := expandChars_singlePass
  have hbehind := (hreference "#60;" [] _ _ hsurrogate).2 (.inr (by decide))
  have hrest : expandChars "#60;" = "#60;".toList := by
    refine hself "#60;" fun r n hr hwithin => ?_
    obtain ⟨body, rfl, -⟩ := hr.exists_body
    have hmem : '&' ∈ "#60;".toList := hwithin.subset List.mem_cons_self
    exact absurd hmem (by decide)
  have hexpand : expandChars text = "&#6&#60;&#xD800;".toList := by
    calc expandChars text = expandChars "&#6" ++ '&' :: expandChars "#60;&#xD800;" :=
          (hreference "&#6" "#60;&#xD800;" _ _ hampersand).1 '&' rfl
      _ = expandChars "&#6" ++
        '&' :: (expandChars "#60;" ++ "&#xD800;".toList ++ expandChars []) :=
          congrArg (fun t => expandChars "&#6" ++ '&' :: t) hbehind
      _ = "&#6&#60;&#xD800;".toList := by
          rw [hrest]
          decide +kernel
  refine ⟨hampersand, hsurrogate, hexpand, fun out => ?_⟩
  rw [hpasses, hexpand]

end Doctype.Reference
