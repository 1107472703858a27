import Doctype.Error
import Doctype.Proofs.Attribute.Grammar

/-!
Attribute lists are read exactly as the grammar writes them (`Definition.parseAll_eq_ok_iff`).
For each reader there are two lemmas: what it accepts is written by its production in front of
what it leaves, and what its production writes is read back where nothing behind it prolongs
it.
-/

namespace Doctype.Attribute

open Grammar
open Text (startsBlank startsNameChar skipBlanks skipBlanks_append skipBlanks_eq_iff)

variable {namesOnly : Bool} {t u r v name : Text} {vs : List Text} {k : Kind} {d : Default}

/-! ### Blanks -/

theorem startsNameChar_space {s : Text} (hs : Space s) (r : Text) :
    startsNameChar (s ++ r) = false := by
  obtain ⟨c, s, rfl⟩ := List.exists_cons_of_ne_nil hs.1
  exact isNameChar_eq_false_of_isBlank (hs.2 c List.mem_cons_self)

theorem startsBlank_space {s : Text} (hs : Space s) (r : Text) :
    startsBlank (s ++ r) = true := by
  obtain ⟨c, s, rfl⟩ := List.exists_cons_of_ne_nil hs.1
  exact hs.2 c List.mem_cons_self

/-! ### Groups -/

theorem member?_eq_some_iff :
    member? namesOnly t = some (v, r) ↔ t = v ++ r ∧ IsMember namesOnly v ∧
      startsNameChar r = false := by
  unfold member? IsMember
  cases namesOnly with
  | false => exact Text.nmtoken?_eq_some_iff
  | true => exact Text.name?_eq_some_iff

theorem exists_of_readMembers {done : List Text}
    (h : readMembers namesOnly done t = .ok (vs, r)) :
    ∃ u ws, t = u ++ r ∧ Members namesOnly u ws ∧ vs = done.reverse ++ ws := by
  fun_induction readMembers namesOnly done t with
  | case1 => cases h
  | case2 done t value after hmember rest hskip ih =>
      obtain ⟨u, ws, rfl, hu, rfl⟩ := ih h
      obtain ⟨hfront, hvalue, -⟩ := member?_eq_some_iff.1 hmember
      obtain ⟨-, s, rfl, hs⟩ := skipBlanks_eq_iff.1 hfront
      obtain ⟨-, s', rfl, hs'⟩ := skipBlanks_eq_iff.1 hskip
      exact ⟨s ++ value ++ s' ++ '|' :: u, value :: ws, by simp,
        .more hs hvalue hs' hu, by simp⟩
  | case3 done t value after hmember rest hskip =>
      cases h
      obtain ⟨hfront, hvalue, -⟩ := member?_eq_some_iff.1 hmember
      obtain ⟨-, s, rfl, hs⟩ := skipBlanks_eq_iff.1 hfront
      obtain ⟨-, s', rfl, hs'⟩ := skipBlanks_eq_iff.1 hskip
      exact ⟨s ++ value ++ s' ++ [')'], [value], by simp, .last hs hvalue hs', by simp⟩
  | case4 => cases h

/-- One member with the blanks around it, in front of what separates or ends. -/
theorem readMembers_step {done : List Text} {s s' : Text} (hs : Gap s)
    (hv : IsMember namesOnly v) (hs' : Gap s') {c : Char} (hc : c = '|' ∨ c = ')') (rest :
    Text) :
      readMembers namesOnly done (s ++ v ++ s' ++ c :: rest) =
        if c = '|' then readMembers namesOnly (v :: done) rest
          else .ok ((v :: done).reverse, rest) := by
  have hblank : isBlank c = false := by rcases hc with rfl | rfl <;> decide
  have hends : isNameChar c = false := by rcases hc with rfl | rfl <;> decide
  have hfront : skipBlanks (s ++ v ++ s' ++ c :: rest) = v ++ (s' ++ c :: rest) := by
    simp only [List.append_assoc]
    exact skipBlanks_append hs (hv.isNmtoken.startsBlank _)
  have hmember : member? namesOnly (v ++ (s' ++ c :: rest)) = some (v, s' ++ c :: rest) :=
    member?_eq_some_iff.2 ⟨rfl, hv, Text.startsNameChar_blanks hs' hends⟩
  have hskip : skipBlanks (s' ++ c :: rest) = c :: rest := skipBlanks_append hs' hblank
  rw [readMembers]
  split
  · next hnone =>
    rw [hfront, hmember] at hnone
    cases hnone
  · next value after hsome =>
    rw [hfront, hmember] at hsome
    cases hsome
    split
    · next hbar =>
      rw [hskip] at hbar
      cases hbar
      simp
    · next hclose =>
      rw [hskip] at hclose
      cases hclose
      simp
    · next hbar hclose =>
      rcases hc with rfl | rfl
      · exact absurd hskip (hbar rest)
      · exact absurd hskip (hclose rest)

theorem readMembers_append (h : Members namesOnly u vs) (done : List Text) (r : Text) :
    readMembers namesOnly done (u ++ r) = .ok (done.reverse ++ vs, r) := by
  induction h generalizing done with
  | last hs hv hs' =>
      rw [List.append_assoc, List.singleton_append, readMembers_step hs hv hs' (.inr rfl)]
      simp
  | more hs hv hs' _ ih =>
      rw [List.append_assoc, List.cons_append, readMembers_step hs hv hs' (.inl rfl),
        if_pos rfl, ih]
      simp

theorem readGroup_eq_ok_iff :
    readGroup namesOnly t = .ok (vs, r) ↔ ∃ u, t = '(' :: (u ++ r) ∧
      Members namesOnly u vs := by
  constructor
  · intro h
    obtain ⟨⟨_, t'⟩, hchar, h⟩ := Lexer.bind_eq_ok h
    obtain ⟨u, ws, rfl, hu, rfl⟩ := exists_of_readMembers h
    unfold Lexer.char at hchar
    split at hchar
    · split at hchar
      · next hc =>
        cases hchar
        exact ⟨u, by rw [hc], hu⟩
      · cases hchar
    · cases hchar
  · rintro ⟨u, rfl, hu⟩
    exact readMembers_append hu [] r

/-! ### Types -/

theorem exists_of_readKind (h : readKind t = .ok (k, r)) : ∃ u, t = u ++ r ∧ AttType u k := by
  unfold readKind at h
  split at h
  · obtain ⟨⟨vs, t'⟩, hgroup, h⟩ := Lexer.bind_eq_ok h
    cases h
    obtain ⟨u, heq, hu⟩ := readGroup_eq_ok_iff.1 hgroup
    exact ⟨'(' :: u, by rw [heq, List.cons_append], .enumeration hu⟩
  · split at h
    · cases h
    · next keyword t₁ hname =>
      obtain ⟨rfl, -⟩ := Text.name?_eq_some_iff.1 hname
      split at h
      · next hkeyword =>
        obtain ⟨⟨_, t₂⟩, hblanks, h⟩ := Lexer.bind_eq_ok h
        obtain ⟨⟨names, t₃⟩, hgroup, h⟩ := Lexer.bind_eq_ok h
        cases h
        obtain ⟨-, s, rfl, hs⟩ := Lexer.blanks_eq_ok_iff.1 hblanks
        obtain ⟨u, rfl, hu⟩ := readGroup_eq_ok_iff.1 hgroup
        exact ⟨"NOTATION".toList ++ s ++ '(' :: u, by simp [hkeyword], .notations hs hu⟩
      · split at h
        · next kind hkind =>
          cases h
          exact ⟨keyword, rfl, .keyword (keyword_iff.2 hkind)⟩
        · cases h

/-- A type that begins with a name is told by the whole name. -/
theorem readKind_name (hname : Text.isName v = true) (hr : startsNameChar r = false) :
    readKind (v ++ r) =
      if v = "NOTATION" then do
        let (_, t) ← Lexer.blanks (.blankRequired "after 'NOTATION'") r
        let (names, t) ← readGroup true t
        return (.notations names, t)
      else
        match Kind.ofKeyword? v with
        | some kind => .ok (kind, r)
        | none => .error ⟨.unknownAttributeType v, r⟩ := by
  have hread : Text.name? (v ++ r) = some (v, r) := Text.name?_append hname hr
  have hparen : ∀ rest, v ++ r ≠ '(' :: rest := by
    rintro rest heq
    rw [heq] at hread
    cases hread
  unfold readKind
  split
  · next heq => exact absurd heq (hparen _)
  · exact hread ▸ rfl

theorem readKind_append (h : AttType u k) (hr : startsNameChar r = false) :
    readKind (u ++ r) = .ok (k, r) := by
  cases h with
  | keyword hkeyword =>
      have hne : u ≠ "NOTATION" := by
        rintro rfl
        cases keyword_iff.1 hkeyword
      rw [readKind_name hkeyword.isName hr, if_neg hne, keyword_iff.1 hkeyword]
  | @notations s t ns hs ht =>
      have hends : startsNameChar (s ++ '(' :: t ++ r) = false := by
        rw [List.append_assoc]
        exact startsNameChar_space hs _
      have hblanks {fault : Lexer.Fault} : Lexer.blanks fault (s ++ '(' :: t ++ r) =
          .ok ((), '(' :: (t ++ r)) :=
        Lexer.blanks_eq_ok_iff.2 ⟨by rfl, s, by simp, hs⟩
      rw [List.append_assoc, List.append_assoc, ← List.append_assoc s,
        readKind_name (by decide) hends, if_pos rfl]
      simp only [hblanks, readGroup_eq_ok_iff.2 ⟨t, rfl, ht⟩, bind, Except.bind, pure,
        Except.pure]
  | enumeration ht =>
      simp only [readKind, List.cons_append, readGroup_eq_ok_iff.2 ⟨_, rfl, ht⟩, bind,
        Except.bind, pure, Except.pure]

/-! ### Defaults -/

theorem literal_append_iff :
    (∃ u, t = u ++ r ∧ Literal u v) ↔ Lexer.quoted t = .ok (v, r) := by
  simp only [literal_iff, Lexer.quoted_eq_ok_iff]
  constructor
  · rintro ⟨_, rfl, q, hq, hv, rfl⟩
    exact ⟨q, hq, hv, by simp⟩
  · rintro ⟨q, hq, hv, rfl⟩
    exact ⟨q :: (v ++ [q]), by simp, q, hq, hv, rfl⟩

theorem readFixed_eq_ok_iff :
    readFixed t = .ok (d, r) ↔ ∃ s u v, t = s ++ (u ++ r) ∧ Space s ∧ Literal u v ∧
      d = .fixed v := by
  constructor
  · intro h
    obtain ⟨⟨_, t₁⟩, hblanks, h⟩ := Lexer.bind_eq_ok h
    obtain ⟨⟨v, t₂⟩, hquoted, h⟩ := Lexer.bind_eq_ok h
    cases h
    obtain ⟨-, s, rfl, hs⟩ := Lexer.blanks_eq_ok_iff.1 hblanks
    obtain ⟨u, rfl, hu⟩ := literal_append_iff.2 hquoted
    exact ⟨s, u, v, rfl, hs, hu, rfl⟩
  · rintro ⟨s, u, v, rfl, hs, hu, rfl⟩
    have hblanks {fault : Lexer.Fault} : Lexer.blanks fault (s ++ (u ++ r)) =
        .ok ((), u ++ r) :=
      Lexer.blanks_eq_ok_iff.2 ⟨by cases hu <;> rfl, s, rfl, hs⟩
    simp only [readFixed, hblanks, literal_append_iff.1 ⟨u, rfl, hu⟩, bind, Except.bind, pure,
      Except.pure]

theorem readPlain_eq_ok_iff :
    readPlain t = .ok (d, r) ↔ ∃ u v, t = u ++ r ∧ Literal u v ∧ '<' ∉ v ∧ d = .plain v := by
  constructor
  · intro h
    obtain ⟨⟨v, t₁⟩, hquoted, h⟩ := Lexer.bind_eq_ok h
    dsimp only at h
    split at h
    · cases h
    · next hless =>
      cases h
      obtain ⟨u, rfl, hu⟩ := literal_append_iff.2 hquoted
      exact ⟨u, v, rfl, hu, by simpa using hless, rfl⟩
  · rintro ⟨u, v, rfl, hu, hless, rfl⟩
    have hcontains : v.contains '<' = false := by simpa using hless
    simp only [readPlain, literal_append_iff.1 ⟨u, rfl, hu⟩, hcontains, bind, Except.bind,
      pure, Except.pure]
    rfl

theorem exists_of_readDefault (h : readDefault t = .ok (d, r)) :
    ∃ u, t = u ++ r ∧ DefaultDecl u d := by
  unfold readDefault at h
  split at h
  · next hkeyword =>
    cases h
    exact ⟨_, (Lexer.keyword?_eq_some_iff.1 hkeyword).1, .required⟩
  · split at h
    · next hkeyword =>
      cases h
      exact ⟨_, (Lexer.keyword?_eq_some_iff.1 hkeyword).1, .implied⟩
    · split at h
      · next hkeyword =>
        obtain ⟨rfl, -⟩ := Lexer.keyword?_eq_some_iff.1 hkeyword
        obtain ⟨s, u, v, rfl, hs, hu, rfl⟩ := readFixed_eq_ok_iff.1 h
        exact ⟨"#FIXED".toList ++ s ++ u, by simp, .fixed hs hu⟩
      · split at h
        · obtain ⟨u, v, rfl, hu, hless, rfl⟩ := readPlain_eq_ok_iff.1 h
          exact ⟨u, rfl, .plain hu hless⟩
        · cases h

theorem readDefault_append (h : DefaultDecl u d) (hr : startsNameChar r = false) :
    readDefault (u ++ r) = .ok (d, r) := by
  cases h with
  | required => rw [readDefault, Lexer.keyword?_eq_some_iff.2 ⟨rfl, hr⟩]
  | implied =>
      have hrequired : Lexer.keyword? "#REQUIRED" ("#IMPLIED".toList ++ r) = none :=
        Lexer.keyword?_eq_none (by simp)
      rw [readDefault, hrequired, Lexer.keyword?_eq_some_iff.2 ⟨rfl, hr⟩]
  | @fixed s t v hs ht =>
      have hends := startsNameChar_space hs (t ++ r)
      have hrequired : Lexer.keyword? "#REQUIRED" ("#FIXED".toList ++ (s ++ (t ++ r))) =
          none :=
        Lexer.keyword?_eq_none (by simp)
      have himplied : Lexer.keyword? "#IMPLIED" ("#FIXED".toList ++ (s ++ (t ++ r))) = none :=
        Lexer.keyword?_eq_none (by simp)
      rw [List.append_assoc, List.append_assoc, readDefault, hrequired, himplied,
        Lexer.keyword?_eq_some_iff.2 ⟨rfl, hends⟩]
      exact readFixed_eq_ok_iff.2 ⟨s, t, v, rfl, hs, ht, rfl⟩
  | @plain _ v hu hless =>
      have hrequired : Lexer.keyword? "#REQUIRED" (u ++ r) = none :=
        Lexer.keyword?_eq_none (by cases hu <;> simp)
      have himplied : Lexer.keyword? "#IMPLIED" (u ++ r) = none :=
        Lexer.keyword?_eq_none (by cases hu <;> simp)
      have hfixed : Lexer.keyword? "#FIXED" (u ++ r) = none :=
        Lexer.keyword?_eq_none (by cases hu <;> simp)
      have hstarts : Lexer.startsQuoted (u ++ r) = true := by cases hu <;> rfl
      rw [readDefault, hrequired, himplied, hfixed]
      exact (if_pos hstarts).trans (readPlain_eq_ok_iff.2 ⟨u, v, rfl, hu, hless, rfl⟩)

/-! ### Definitions -/

/-- Behind a definition the text ends, or blanks follow. -/
theorem readGap_eq_ok_iff {x : Unit} :
    readGap t = .ok (x, r) ↔
      t = [] ∧ r = [] ∨ startsBlank r = false ∧ ∃ s, t = s ++ r ∧ Space s := by
  cases t with
  | nil =>
      constructor
      · intro h
        cases h
        exact .inl ⟨rfl, rfl⟩
      · rintro (⟨-, rfl⟩ | ⟨-, s, heq, hne, -⟩)
        · rfl
        · exact absurd (List.append_eq_nil_iff.1 heq.symm).1 hne
  | cons c t =>
      have hread : readGap (c :: t) = .ok (x, r) ↔
          Lexer.blanks (.blankRequired "between attribute definitions") (c :: t) =
            .ok (x, r) := Iff.rfl
      rw [hread, Lexer.blanks_eq_ok_iff]
      simp [Space, Gap]

theorem startsNameChar_of_readGap {x : Unit} (h : readGap t = .ok (x, r)) :
    startsNameChar t = false := by
  rcases readGap_eq_ok_iff.1 h with ⟨rfl, -⟩ | ⟨-, s, rfl, hs⟩
  · rfl
  · exact startsNameChar_space hs r

theorem AttType.startsBlank (h : AttType u k) (r : Text) : startsBlank (u ++ r) = false := by
  cases h with
  | keyword h => exact (Text.isNmtoken_of_isName h.isName).startsBlank r
  | notations => rfl
  | enumeration => rfl

theorem DefaultDecl.startsBlank (h : DefaultDecl u d) (r : Text) :
    startsBlank (u ++ r) = false := by
  cases h with
  | required => rfl
  | implied => rfl
  | fixed => rfl
  | plain h => cases h <;> rfl

theorem exists_of_readRest {d : Definition} (hname : Text.isName name = true)
    (h : readRest name t = .ok (d, r)) :
    ∃ u g, t = u ++ g ∧ AttDef (name ++ u) d ∧ readGap g = .ok ((), r) := by
  obtain ⟨⟨_, t₁⟩, hblanks, h⟩ := Lexer.bind_eq_ok h
  obtain ⟨⟨kind, t₂⟩, hkind, h⟩ := Lexer.bind_eq_ok h
  obtain ⟨⟨_, t₃⟩, hblanks', h⟩ := Lexer.bind_eq_ok h
  obtain ⟨⟨default, t₄⟩, hdefault, h⟩ := Lexer.bind_eq_ok h
  obtain ⟨⟨_, t₅⟩, hgap, h⟩ := Lexer.bind_eq_ok h
  cases h
  obtain ⟨-, s, rfl, hs⟩ := Lexer.blanks_eq_ok_iff.1 hblanks
  obtain ⟨v, rfl, hv⟩ := exists_of_readKind hkind
  obtain ⟨-, s', rfl, hs'⟩ := Lexer.blanks_eq_ok_iff.1 hblanks'
  obtain ⟨w, rfl, hw⟩ := exists_of_readDefault hdefault
  refine ⟨s ++ (v ++ (s' ++ w)), t₄, by simp, ?_, hgap⟩
  simpa using AttDef.mk hname hs hv hs' hw

/-- A definition is read back from its name and what is behind the name. -/
theorem readRest_append {d : Definition} {g : Text} (h : AttDef v d)
    (hg : readGap g = .ok ((), r)) :
    ∃ u, v = d.name ++ u ∧ Text.name? (v ++ g) = some (d.name, u ++ g) ∧
      readRest d.name (u ++ g) = .ok (d, r) := by
  cases h with
  | @mk n s t s' w k d hname hs ht hs' hw =>
      have hends := startsNameChar_space hs' (w ++ g)
      have hends' := startsNameChar_space hs (t ++ (s' ++ (w ++ g)))
      have hblanks {fault : Lexer.Fault} :
          Lexer.blanks fault (s ++ (t ++ (s' ++ (w ++ g)))) =
            .ok ((), t ++ (s' ++ (w ++ g))) :=
        Lexer.blanks_eq_ok_iff.2 ⟨AttType.startsBlank ht _, s, rfl, hs⟩
      have hblanks' {fault : Lexer.Fault} : Lexer.blanks fault (s' ++ (w ++ g)) =
          .ok ((), w ++ g) :=
        Lexer.blanks_eq_ok_iff.2 ⟨DefaultDecl.startsBlank hw _, s', rfl, hs'⟩
      refine ⟨s ++ (t ++ (s' ++ w)), by simp, ?_, ?_⟩
      · simpa using Text.name?_append hname hends'
      · simp only [List.append_assoc, readRest, hblanks, readKind_append ht hends, hblanks',
          readDefault_append hw (startsNameChar_of_readGap hg), hg, bind, Except.bind, pure,
          Except.pure]

theorem readDefinitions_nil {done : List Definition} (h : skipBlanks t = []) :
    readDefinitions done t = .ok done.reverse := by
  rw [readDefinitions]
  split
  · rfl
  · next hskip =>
    rw [h] at hskip
    cases hskip

/-- Reading goes on behind a definition and what separates it from the next one. -/
theorem readDefinitions_cons {done : List Definition} {d : Definition} {g : Text}
    (h : AttDef v d) (hg : readGap g = .ok ((), r)) (ht : skipBlanks t = v ++ g) :
    readDefinitions done t = readDefinitions (d :: done) r := by
  obtain ⟨u, -, hname, hread⟩ := readRest_append h hg
  rw [readDefinitions]
  split
  · next hskip =>
    rw [← ht, hskip] at hname
    cases hname
  · next c front hskip =>
    rw [← ht, hskip] at hname
    split
    · next hnone =>
      rw [hname] at hnone
      cases hnone
    · next n after hsome =>
      rw [hname] at hsome
      cases hsome
      split
      · next hfault =>
        rw [hread] at hfault
        cases hfault
      · next hok =>
        rw [hread] at hok
        cases hok
        rfl

/-! ### Lists -/

variable {ds : List Definition}

theorem gap_append {s s' : Text} (hs : Gap s) (hs' : Gap s') : Gap (s ++ s') :=
  fun c hc => (List.mem_append.1 hc).elim (hs c) (hs' c)

theorem AttDef.ne_nil {d : Definition} (h : AttDef t d) : t ≠ [] := by
  cases h with
  | mk hname =>
      have hne := (Text.isNmtoken_of_isName hname).1
      simp [hne]

theorem AttDef.startsBlank {d : Definition} (h : AttDef t d) (r : Text) :
    startsBlank (t ++ r) = false := by
  cases h with
  | mk hname =>
      simp only [List.append_assoc]
      exact (Text.isNmtoken_of_isName hname).startsBlank _

theorem AttList.eq_nil (h : AttList [] ds) : ds = [] := by
  generalize ht : ([] : Text) = t at h
  cases h with
  | empty => rfl
  | definitions _ hd =>
      have hne := AttDef.ne_nil hd
      simp [hne] at ht

theorem AttList.cons {s g : Text} {d : Definition} (hs : Gap s) (hd : AttDef u d)
    (hg : readGap g = .ok ((), r)) (hr : AttList r ds) : AttList (s ++ u ++ g) (d :: ds) := by
  rcases readGap_eq_ok_iff.1 hg with ⟨rfl, rfl⟩ | ⟨-, s₁, rfl, hne, hs₁⟩
  · obtain rfl := AttList.eq_nil hr
    have hgap : Gap [] := by simp [Gap]
    simpa using AttList.definitions hs hd .nil hgap
  · cases hr with
    | empty hs₂ hs₃ =>
        simpa using AttList.definitions hs hd .nil (gap_append hs₁ (gap_append hs₂ hs₃))
    | definitions hs₂ hd' hds hs₃ =>
        have hspace : Space (s₁ ++ _) := ⟨by simp [hne], gap_append hs₁ hs₂⟩
        simpa using AttList.definitions hs hd (.cons hspace hd' hds) hs₃

theorem exists_of_readDefinitions {done : List Definition}
    (h : readDefinitions done t = .ok ds) :
    ∃ ds', ds = done.reverse ++ ds' ∧ AttList t ds' := by
  fun_induction readDefinitions done t with
  | case1 done t hskip =>
      cases h
      obtain ⟨-, s, rfl, hs⟩ := skipBlanks_eq_iff.1 hskip
      exact ⟨[], by simp, .empty hs (by simp [Gap])⟩
  | case2 => cases h
  | case3 => cases h
  | case4 done t c front hskip name after hname d rest hrest ih =>
      obtain ⟨ds', rfl, hds⟩ := ih h
      obtain ⟨-, s, rfl, hs⟩ := skipBlanks_eq_iff.1 hskip
      obtain ⟨heq, hname, -⟩ := Text.name?_eq_some_iff.1 hname
      obtain ⟨u, g, rfl, hu, hg⟩ := exists_of_readRest hname hrest
      rw [heq]
      exact ⟨d :: ds', by simp, by simpa using AttList.cons hs hu hg hds⟩

theorem readGap_eq_skipBlanks (h : t ≠ [] → Text.startsBlank t = true) :
    readGap t = .ok ((), skipBlanks t) := by
  cases t with
  | nil => rfl
  | cons c t => simp [readGap, Lexer.blanks, h]

theorem startsBlank_more {s : Text} (h : More u ds) (hs : Gap s) (hne : u ++ s ≠ []) :
    Text.startsBlank (u ++ s) = true := by
  cases h with
  | nil =>
      obtain ⟨c, s, rfl⟩ := List.exists_cons_of_ne_nil hne
      exact hs c List.mem_cons_self
  | cons hspace =>
      simp only [List.append_assoc]
      exact startsBlank_space hspace _

/-- The definitions behind another one are read, by induction on them. The blanks in front of
each were skipped together with what is before. -/
theorem readDefinitions_more {s : Text} (h : More u ds) (hs : Gap s) {done : List Definition}
    (ht : skipBlanks t = skipBlanks (u ++ s)) :
    readDefinitions done t = .ok (done.reverse ++ ds) := by
  induction h generalizing done t with
  | nil =>
      have hskip : skipBlanks s = [] := by simpa using skipBlanks_append (t := []) hs rfl
      rw [readDefinitions_nil (ht.trans hskip)]
      simp
  | @cons s₁ v u d ds hspace hd hu ih =>
      have hskip : skipBlanks (s₁ ++ (v ++ (u ++ s))) = v ++ (u ++ s) :=
        skipBlanks_append hspace.2 (AttDef.startsBlank hd _)
      have hgap : readGap (u ++ s) = .ok ((), skipBlanks (u ++ s)) :=
        readGap_eq_skipBlanks (startsBlank_more hu hs)
      rw [readDefinitions_cons hd hgap (by simpa [hskip] using ht),
        ih (Text.skipBlanks_skipBlanks _)]
      simp

theorem readDefinitions_of_attList (h : AttList t ds) : readDefinitions [] t = .ok ds := by
  cases h with
  | @empty s s' hs hs' =>
      have hskip : skipBlanks (s ++ s') = [] := by
        simpa using skipBlanks_append (t := []) (gap_append hs hs') rfl
      exact readDefinitions_nil hskip
  | @definitions s v u s' d ds hs hd hu hs' =>
      have hskip : skipBlanks (s ++ (v ++ (u ++ s'))) = v ++ (u ++ s') :=
        skipBlanks_append hs (AttDef.startsBlank hd _)
      have hgap : readGap (u ++ s') = .ok ((), skipBlanks (u ++ s')) :=
        readGap_eq_skipBlanks (startsBlank_more hu hs')
      have hmore : readDefinitions [d] (skipBlanks (u ++ s')) = .ok ([d].reverse ++ ds) :=
        readDefinitions_more hu hs' (Text.skipBlanks_skipBlanks _)
      rw [readDefinitions_cons hd hgap (by simpa using hskip), hmore]
      simp

/-- A text is read as a list of definitions exactly if the grammar has it. -/
theorem Definition.parseAll_eq_ok_iff : parseAll t = .ok ds ↔ AttList t ds := by
  have hread : parseAll t = .ok ds ↔ readDefinitions [] t = .ok ds := by
    unfold parseAll
    cases readDefinitions [] t <;> simp [Except.mapError]
  rw [hread]
  constructor
  · intro h
    obtain ⟨ds', rfl, hds⟩ := exists_of_readDefinitions h
    exact hds
  · exact readDefinitions_of_attList

theorem Definition.parseFor_eq_ok_iff {element raw : Text} :
    parseFor element raw = .ok ds ↔ AttList raw ds := by
  rw [← parseAll_eq_ok_iff]
  unfold parseFor
  cases parseAll raw <;> simp [Except.mapError]

/-- The reader accepts exactly the grammar, all or nothing: it gives the definitions that a
text writes, in order and with their values as written, and an error about the list for every
other text. A text writes one list at most. Well-formed definitions are read back from what is
printed of them, and no other ones are ever read. -/
theorem Definition.parseFor_accepts_grammar (element raw : Text) :
    (∀ ds, parseFor element raw = .ok ds ↔ AttList raw ds) ∧
      ((∃ e, parseFor element raw = .error (.attributeList e)) ↔ ¬ ∃ ds, AttList raw ds) ∧
      (∀ ds ds', AttList raw ds → AttList raw ds' → ds = ds') ∧
      (∀ ds, (∀ d ∈ ds, d.WellFormed) → parseFor element (printAll ds) = .ok ds) ∧
      ∀ ds, AttList raw ds → ∀ d ∈ ds, d.WellFormed := by
  refine ⟨fun ds => parseFor_eq_ok_iff, ?_, ?_,
    fun ds h => parseFor_eq_ok_iff.2 (attList_print h), fun ds h => h.wellFormed⟩
  · simp only [← parseAll_eq_ok_iff, parseFor]
    cases parseAll raw <;> simp [Except.mapError]
  · intro ds ds' h h'
    have hread := parseAll_eq_ok_iff.2 h
    rw [parseAll_eq_ok_iff.2 h'] at hread
    cases hread
    rfl

/-- Two definitions with groups, written with blanks in them and printed without. -/
theorem Definition.parseFor_accepts_grammar_groups :
    let raw : Text := " align ( left|right ) \"left\"\n format NOTATION (gif) #FIXED 'gif' "
    let ds : List Definition := [⟨"align", .enumeration ["left", "right"], .plain "left"⟩,
      ⟨"format", .notations ["gif"], .fixed "gif"⟩]
    parseFor ['p'] raw = .ok ds ∧ AttList raw ds ∧ (∀ d ∈ ds, d.WellFormed) ∧
      printAll ds = "align (left|right) \"left\" format NOTATION (gif) #FIXED \"gif\"" ∧
      parseFor ['p'] (printAll ds) = .ok ds := by
  intro raw ds
  obtain ⟨hread, -, -, hprint, hformed⟩ := parseFor_accepts_grammar ['p'] raw
  have hok : parseFor ['p'] raw = .ok ds := by decide +kernel
  have hlist := (hread ds).1 hok
  exact ⟨hok, hlist, hformed ds hlist, by decide +kernel, hprint ds (hformed ds hlist)⟩

/-! ### Less-than signs -/

/-- A value with a less-than sign in it is accepted behind `#FIXED` only, and there every value
is that can stand between quotation marks. -/
theorem Default.lessThan_accepted (element v : Text) :
    (∀ raw ds d, Definition.parseFor element raw = .ok ds → d ∈ ds →
      d.default.value? = some v → '<' ∈ v →
      d.default = .fixed v) ∧
    ((∃ raw ds d, Definition.parseFor element raw = .ok ds ∧ d ∈ ds ∧ d.default = .fixed v) ↔
      '"' ∉ v ∨ '\'' ∉ v) := by
  constructor
  · intro raw ds d h hd hvalue hless
    have hformed := ((Definition.parseFor_eq_ok_iff.1 h).wellFormed d hd).default
    cases hdefault : d.default with
    | required => simp [hdefault, value?] at hvalue
    | implied => simp [hdefault, value?] at hvalue
    | fixed w => simpa [hdefault, value?] using hvalue
    | plain w =>
        obtain rfl : w = v := by simpa [hdefault, value?] using hvalue
        rw [hdefault] at hformed
        exact absurd hless hformed.2
  · constructor
    · rintro ⟨raw, ds, d, h, hd, hdefault⟩
      have hformed := ((Definition.parseFor_eq_ok_iff.1 h).wellFormed d hd).default
      rw [hdefault] at hformed
      exact hformed
    · intro hquote
      have hname : Text.isName ['a'] = true := by decide
      have hformed : ∀ d ∈ [(⟨['a'], .cdata, .fixed v⟩ : Definition)], d.WellFormed := by
        simp only [List.mem_singleton, forall_eq]
        exact ⟨hname, trivial, hquote⟩
      exact ⟨_, _, _, Definition.parseFor_eq_ok_iff.2 (attList_print hformed),
        List.mem_singleton_self _, rfl⟩

/-- A fixed value with a less-than sign is accepted. -/
theorem Default.fixed_lessThan :
    Definition.parseFor "el" "x CDATA #FIXED '<b>'" = .ok [⟨['x'], .cdata, .fixed "<b>"⟩] ∧
      Default.value? (.fixed "<b>") = some "<b>".toList ∧ '<' ∈ "<b>".toList ∧
      Definition.parseFor "el" "x CDATA '<b>'" =
        .error (.attributeList ⟨"el", "x CDATA '<b>'", ⟨.lessThanInValue, 13⟩⟩) := by
  decide +kernel

/-- The value of the only definition in a list. -/
theorem Default.lessThan_accepted_fixed :
    let raw : Text := "x CDATA #FIXED '<b>'"
    let d : Definition := ⟨['x'], .cdata, .fixed "<b>"⟩
    Definition.parseFor "el" raw = .ok [d] ∧ d.default.value? = some "<b>".toList ∧
      '<' ∈ "<b>".toList ∧
      d.default = .fixed "<b>" := by
  intro raw d
  have hread : Definition.parseFor "el" raw = .ok [d] := by decide +kernel
  exact ⟨hread, rfl, by decide,
    (Default.lessThan_accepted "el" "<b>").1 raw [d] d hread (List.mem_singleton_self d) rfl
      (by decide)⟩

end Doctype.Attribute
