import Doctype.Markup.Offset
import Doctype.Proofs.Markup.Extension
import Doctype.Proofs.Text.Slicing

/-!
Searching by byte offsets: for the end of blanks, names and references, for the end of a
declaration, and for the end of a section that is skipped. Every search takes slices of a text
and adds up offsets, and is none if a slice is not there. At the offset of what is left of a
text it finds what is found in that: no slice on its way fails.
-/

namespace Doctype.Markup

open Text (offset)

variable {text rest t u : Text} {c : Char} {n m : Nat}

/-! ### Blanks and names -/

theorem skipBlanksAt_offset (h : rest <:+ text) :
    skipBlanksAt text (offset text rest) = some (offset text (Text.skipBlanks rest)) := by
  rw [skipBlanksAt, Text.from?_offset h, Text.skipBlanks, Text.offset_dropWhile h]
  change some _ = some _
  cases Text.findChar? (fun c => !isBlank c) rest with
  | some n => rfl
  | none => exact congrArg some (Text.offset_add_size h).symm

theorem passBlanksAt_offset (h : rest <:+ text) :
    passBlanksAt text (offset text rest) = some (offset text (Text.skipBlanks rest)) := by
  induction rest with
  | nil =>
      rw [passBlanksAt.eq_def, Text.from?_offset h]
      rfl
  | cons c rest ih =>
      rw [passBlanksAt.eq_def, Text.from?_offset h]
      dsimp only
      rw [Text.skipBlanks, List.dropWhile_cons, ← Text.offset_cons h,
        ih ((List.suffix_cons c rest).trans h)]
      cases isBlank c <;> rfl

theorem nameAt_offset (h : rest <:+ text) :
    nameAt text (offset text rest) =
      some ((Text.name? rest).map fun p => (p.1, offset text p.2)) := by
  rw [nameAt, Text.from?_offset h]
  cases rest with
  | nil => rfl
  | cons c more =>
      change (if isNameStart c = true then _ else some none) = _
      rw [Text.name?]
      cases isNameStart c with
      | false => rfl
      | true =>
          have hmore : more <:+ text := (List.suffix_cons c more).trans h
          have hstop : ((Text.findChar? (fun c => !isNameChar c) more).map
              (c.utf8Size + ·)).getD
              (Text.size (c :: more)) = Text.size (c :: more.takeWhile isNameChar) := by
            rw [Text.size_cons, Text.size_cons, ← Text.findChar?_not]
            cases Text.findChar? (fun c => !isNameChar c) more <;> rfl
          have hname : Text.upTo? (c :: more) (Text.size (c :: more.takeWhile isNameChar)) =
              some (c :: more.takeWhile isNameChar) := by
            have happend :=
              Text.upTo?_size (c :: more.takeWhile isNameChar) (more.dropWhile isNameChar)
            rwa [List.cons_append, List.takeWhile_append_dropWhile] at happend
          have hpos : offset text (more.dropWhile isNameChar) =
              offset text (c :: more) + Text.size (c :: more.takeWhile isNameChar) := by
            rw [Text.offset_dropWhile hmore, Text.findChar?_not, Text.offset_cons h,
              Text.size_cons, Nat.add_assoc]
          simp only [if_true, hstop, hname, Option.map_some, hpos]
          rfl

/-- A reference is looked for behind one byte, wherever that is. -/
theorem referenceAt_offset (h : rest <:+ text) :
    referenceAt text (offset text rest) =
      some ((rest.from? 1).bind fun t => (reference? t).map fun p =>
        (p.1, offset text p.2)) := by
  rw [referenceAt, Text.from?_offset_add h]
  cases hbehind : rest.from? 1 with
  | none => rfl
  | some behind =>
      have hname := nameAt_offset (List.suffix_refl behind)
      have hstart := Text.offset_of_from? h hbehind
      rw [Text.offset_self] at hname
      simp only [hname, Option.bind_eq_bind, Option.bind_some, reference?]
      cases hread : Text.name? behind with
      | none => rfl
      | some p =>
          obtain ⟨name, left⟩ := p
          obtain ⟨hleft, -⟩ := Text.name?_eq_some hread
          have hsuffix : left <:+ behind := ⟨name, hleft.symm⟩
          simp only [Option.map_some, Text.from?_offset hsuffix, Option.bind_some]
          rcases left with - | ⟨d, left⟩
          · rfl
          · by_cases hd : d = ';'
            · subst hd
              have hsemicolon : left <:+ ';' :: left := List.suffix_cons _ _
              have hstop := Text.offset_trans ((Text.suffix_of_from? hbehind).trans h)
                (hsemicolon.trans hsuffix)
              rw [hstart, Text.offset_cons hsuffix] at hstop
              simp only [Option.map_some, hstop]
              rfl
            · simp [hd]

/-! ### Ends -/

theorem map_size_declarationFrom? (quote : Option Char) (done t : Text) :
    (declarationFrom? quote done t).map (fun p => Text.size p.1) =
      (closingFrom? quote t).map (Text.size done + ·) := by
  fun_induction declarationFrom? quote done t with
  | case1 => rfl
  | case2 quote done c t hc => simp [closingFrom?, hc, Buffer.size_reverse]
  | case3 quote done c t hc ih =>
      rw [ih, closingFrom?, if_neg hc, Text.size_cons, Option.map_map]
      refine congrArg (Option.map · _) (funext fun n => ?_)
      simp only [Function.comp_apply]
      omega

theorem declarationFrom?_eq (quote : Option Char) (done t : Text) :
    declarationFrom? quote done t = (declarationFrom? quote [] t).map fun p =>
      (done.reverse ++ p.1, p.2) := by
  induction t generalizing quote done with
  | nil => rfl
  | cons c t ih =>
      rw [declarationFrom?, declarationFrom?, ih (quoteAfter quote c) (c :: done),
        ih (quoteAfter quote c) [c]]
      split
      · simp
      · cases declarationFrom? (quoteAfter quote c) [] t <;> simp

theorem declarationEndAt_offset (h : rest <:+ text) :
    declarationEndAt text (offset text rest) =
      some ((declaration? rest).map fun p => offset text ('>' :: p.2)) := by
  have hsize := map_size_declarationFrom? none [] rest
  rw [declarationEndAt, Text.from?_offset h]
  change some _ = some _
  cases hread : declaration? rest with
  | none =>
      rw [declaration?] at hread
      rw [hread] at hsize
      cases hclosing : closingFrom? none rest with
      | none => rfl
      | some n =>
          rw [hclosing] at hsize
          cases hsize
  | some p =>
      obtain ⟨inside, left⟩ := p
      have hrest : rest = inside ++ '>' :: left := declarationFrom?_eq_some hread
      rw [declaration?] at hread
      rw [hread] at hsize
      cases hclosing : closingFrom? none rest with
      | none =>
          rw [hclosing] at hsize
          cases hsize
      | some n =>
          rw [hclosing] at hsize
          have hn : Text.size inside = 0 + n := Option.some.inj hsize
          have hoffset := Text.offset_append (hrest ▸ h)
          rw [← hrest, hn, Nat.zero_add] at hoffset
          exact congrArg some (congrArg some hoffset.symm)

theorem find?_eq_zero {mark : Text} (h : c :: t = mark ++ u) :
    Text.find? mark (c :: t) = some 0 := by
  rw [Text.find?, if_pos (List.isPrefixOf_iff_prefix.2 ⟨u, h.symm⟩)]

theorem find?_cons {mark : Text} (h : ∀ u, c :: t ≠ mark ++ u) :
    Text.find? mark (c :: t) = (Text.find? mark t).map (c.utf8Size + ·) := by
  rw [Text.find?, if_neg]
  intro hprefix
  obtain ⟨u, hu⟩ := List.isPrefixOf_iff_prefix.1 hprefix
  exact h u hu.symm

theorem find?_cases (mark : Text) (c : Char) (t : Text) :
    (∃ u, c :: t = mark ++ u) ∧ Text.find? mark (c :: t) = some 0 ∨
      (∀ u, c :: t ≠ mark ++ u) ∧
        Text.find? mark (c :: t) = (Text.find? mark t).map (c.utf8Size + ·) := by
  by_cases h : ∃ u, c :: t = mark ++ u
  · obtain ⟨u, hu⟩ := h
    exact .inl ⟨⟨u, hu⟩, find?_eq_zero hu⟩
  · have hne (u : Text) : c :: t ≠ mark ++ u := fun hu => h ⟨u, hu⟩
    exact .inr ⟨hne, find?_cons hne⟩

theorem find?_cons_eq_none {mark : Text} (h : Text.find? mark (c :: t) = none) :
    (∀ u, c :: t ≠ mark ++ u) ∧ Text.find? mark t = none := by
  rcases find?_cases mark c t with ⟨-, hfind⟩ | ⟨hne, hfind⟩
  · rw [h] at hfind
    cases hfind
  · rw [h] at hfind
    exact ⟨hne, Option.map_eq_none_iff.1 hfind.symm⟩

theorem skipIgnored_of_find_none (h : Text.find? "]]>" t = none) (depth : Nat) :
    skipIgnored depth t = none := by
  fun_induction skipIgnored depth t with
  | case1 t => exact absurd rfl ((find?_cons_eq_none h).1 t)
  | case2 t depth ih => exact absurd rfl ((find?_cons_eq_none h).1 t)
  | case3 depth t ih =>
      exact ih (find?_cons_eq_none (find?_cons_eq_none (find?_cons_eq_none h).2).2).2
  | case4 depth c t _ _ ih => exact ih (find?_cons_eq_none h).2
  | case5 => rfl

/-- If no section begins in front of the first end of one, this end is answered for. -/
theorem exists_of_find_close (hclose : Text.find? "]]>" t = some n)
    (hopen : ∀ m, Text.find? "<![" t = some m → n ≤ m) :
    ∃ a b, t = a ++ ("]]>".toList ++ b) ∧ Text.size a = n ∧
      skipIgnored 0 t = some b ∧ ∀ depth, skipIgnored (depth + 1) t = skipIgnored depth b := by
  induction t generalizing n with
  | nil => cases hclose
  | cons c t ih =>
      rcases find?_cases "]]>" c t with ⟨⟨b, hb⟩, hfind⟩ | ⟨hnoclose, hfind⟩
      · obtain rfl : 0 = n := Option.some.inj (hfind.symm.trans hclose)
        rw [hb]
        exact ⟨[], b, rfl, rfl, rfl, fun depth => rfl⟩
      · rw [hclose] at hfind
        obtain ⟨k, hk, rfl⟩ := Option.map_eq_some_iff.1 hfind.symm
        have hc := c.utf8Size_pos
        have hnoopen (u : Text) : c :: t ≠ "<![".toList ++ u := fun hu => by
          have := hopen 0 (find?_eq_zero hu)
          omega
        have hopen' (m : Nat) (hm : Text.find? "<![" t = some m) : k ≤ m := by
          have := hopen (c.utf8Size + m) (by rw [find?_cons hnoopen, hm, Option.map_some])
          omega
        obtain ⟨a, b, rfl, rfl, hzero, hsucc⟩ := ih hk hopen'
        have hskip := skipIgnored_cons hnoclose hnoopen
        refine ⟨c :: a, b, rfl, Text.size_cons c a, ?_, fun depth => ?_⟩
        · rw [hskip, hzero]
        · rw [hskip, hsucc]

/-- If no section ends in front of the first beginning of one, there is one more behind
that. -/
theorem exists_of_find_open (hopen : Text.find? "<![" t = some m)
    (hclose : ∀ n, Text.find? "]]>" t = some n → m < n) :
    ∃ a b, t = a ++ ("<![".toList ++ b) ∧ Text.size a = m ∧
      ∀ depth, skipIgnored depth t = skipIgnored (depth + 1) b := by
  induction t generalizing m with
  | nil => cases hopen
  | cons c t ih =>
      rcases find?_cases "<![" c t with ⟨⟨b, hb⟩, hfind⟩ | ⟨hnoopen, hfind⟩
      · obtain rfl : 0 = m := Option.some.inj (hfind.symm.trans hopen)
        rw [hb]
        exact ⟨[], b, rfl, rfl, fun depth => rfl⟩
      · rw [hopen] at hfind
        obtain ⟨k, hk, rfl⟩ := Option.map_eq_some_iff.1 hfind.symm
        have hnoclose (u : Text) : c :: t ≠ "]]>".toList ++ u := fun hu =>
          absurd (hclose 0 (find?_eq_zero hu)) (Nat.not_lt_zero _)
        have hclose' (n : Nat) (hn : Text.find? "]]>" t = some n) : k < n := by
          have := hclose (c.utf8Size + n) (by rw [find?_cons hnoclose, hn, Option.map_some])
          omega
        obtain ⟨a, b, rfl, rfl, hskip⟩ := ih hk hclose'
        refine ⟨c :: a, b, rfl, Text.size_cons c a, fun depth => ?_⟩
        rw [skipIgnored_cons hnoclose hnoopen, hskip]

/-- What the first mark of a section means for the search for the end of one: how it goes on
behind the mark. -/
inductive SectionMark.Means (t : Text) : SectionMark → Prop
  | missing : (∀ depth, skipIgnored depth t = none) → Means t missing
  | opening {b : Text} : b <:+ t → b.length < t.length →
      (∀ depth, skipIgnored depth t = skipIgnored (depth + 1) b) →
      Means t (opening (offset t b))
  | closing {b : Text} : b <:+ t → b.length < t.length → skipIgnored 0 t = some b →
      (∀ depth, skipIgnored (depth + 1) t = skipIgnored depth b) →
      Means t (closing (offset t b))

theorem openingMark_size : Text.size "<![".toList = 3 := by decide

theorem closingMark_size : Text.size "]]>".toList = 3 := by decide

theorem behind_mark (a b : Text) {mark : Text} (hmark : Text.size mark = 3) :
    b <:+ a ++ (mark ++ b) ∧ b.length < (a ++ (mark ++ b)).length ∧
      Text.size a + 3 = offset (a ++ (mark ++ b)) b := by
  refine ⟨⟨a ++ mark, List.append_assoc _ _ _⟩, ?_, ?_⟩
  · cases mark with
    | nil => cases hmark
    | cons c mark =>
        rw [List.length_append, List.length_append, List.length_cons]
        omega
  · rw [← List.append_assoc, Text.offset_append_left, Text.size_append, hmark]

theorem SectionMark.means_first (t : Text) : (first t).Means t := by
  cases hclose : Text.find? "]]>" t with
  | none =>
      simp only [first, hclose]
      exact .missing (skipIgnored_of_find_none hclose)
  | some close =>
      have hends (hopen : ∀ m, Text.find? "<![" t = some m → close ≤ m) :
          (closing (close + 3)).Means t := by
        obtain ⟨a, b, rfl, rfl, hzero, hsucc⟩ := exists_of_find_close hclose hopen
        obtain ⟨hb, hlength, hbytes⟩ := behind_mark a b closingMark_size
        rw [hbytes]
        exact .closing hb hlength hzero hsucc
      cases hopen : Text.find? "<![" t with
      | none =>
          simp only [first, hclose, hopen]
          exact hends fun m hm => by
            rw [hopen] at hm
            cases hm
      | some start =>
          simp only [first, hclose, hopen]
          by_cases hlt : start < close
          · rw [if_pos hlt]
            obtain ⟨a, b, rfl, rfl, hskip⟩ := exists_of_find_open hopen fun n hn => by
              rw [hclose] at hn
              cases hn
              exact hlt
            obtain ⟨hb, hlength, hbytes⟩ := behind_mark a b openingMark_size
            rw [hbytes]
            exact .opening hb hlength hskip
          · rw [if_neg hlt]
            exact hends fun m hm => by
              rw [hopen] at hm
              cases hm
              exact Nat.le_of_not_lt hlt

theorem skipIgnoredAt_offset (h : rest <:+ text) (depth : Nat) :
    skipIgnoredAt text (depth + 1) (offset text rest) =
      some ((skipIgnored depth rest).map (offset text)) := by
  induction hn : rest.length using Nat.strong_induction_on generalizing rest depth with
  | _ n ih =>
      rw [skipIgnoredAt, if_neg (Nat.succ_ne_zero depth), Text.from?_offset h]
      simp only [Nat.add_sub_cancel]
      have hmeans := SectionMark.means_first rest
      generalize SectionMark.first rest = mark at hmeans
      cases hmeans with
      | missing hskip =>
          rw [hskip]
          rfl
      | opening hb hlength hskip =>
          dsimp only
          rw [hskip, ← Text.offset_trans h hb]
          exact ih _ (hn ▸ hlength) (hb.trans h) (depth + 1) rfl
      | closing hb hlength hzero hsucc =>
          dsimp only
          rw [← Text.offset_trans h hb]
          cases depth with
          | zero =>
              rw [hzero, skipIgnoredAt]
              rfl
          | succ depth =>
              rw [hsucc]
              exact ih _ (hn ▸ hlength) (hb.trans h) depth rfl

end Doctype.Markup
