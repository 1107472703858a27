import Doctype.Proofs.Content.Grammar
import Doctype.Proofs.Text.Blank
import Doctype.Proofs.Text.Name

/-!
The tokens that are read from a text are the lexemes that it consists of: reading succeeds
exactly for the texts that `Lexes` cuts into lexemes, and gives these (`exists_tokens_iff`), so
a text has one such list at most. The canonical form of a tree consists of its canonical
lexemes (`Particle.lexes_print`).
-/

namespace Doctype.Content

/-! ### One token -/

theorem Lexeme.ofChar?_of_isNameStart {c : Char} (h : isNameStart c = true) :
    Lexeme.ofChar? c = none := by
  unfold Lexeme.ofChar?
  split <;> first | rfl | exact absurd h (by decide)

/-- A lexeme is read back from the text that it is written as, if it ends where that text
ends. -/
theorem Lexeme.read_print {l : Lexeme} {c : Char} {u t : Text} (hvalid : l.Valid)
    (hends : l.EndsBefore t) (hprint : l.print = c :: u) :
    Lexeme.read c (u ++ t) = .ok (l, t) := by
  cases l with
  | name n =>
      have hn : n = c :: u := hprint
      subst hn
      obtain ⟨hc, hu⟩ := isNameStart_of_isName hvalid
      obtain ⟨htake, hdrop⟩ := Text.span_isNameChar hu hends
      have hhash : c ≠ '#' := by
        rintro rfl
        exact absurd hc (by decide)
      simp [Lexeme.read, Lexeme.ofChar?_of_isNameStart hc, hhash, hc, htake, hdrop]
  | pcdata =>
      have hprint : '#' :: "PCDATA".toList = c :: u := hprint
      obtain ⟨rfl, rfl⟩ := List.cons.inj hprint
      have hdrop := Text.dropPrefix?_append "PCDATA".toList t
      have ht : Text.startsNameChar t = false := hends
      simp only [Lexeme.read, show Lexeme.ofChar? '#' = none from rfl, if_true, hdrop, ht]
      rfl
  | mark m =>
      obtain ⟨rfl, rfl⟩ := List.cons.inj hprint
      cases m <;> rfl
  | leftParen | rightParen | bar | comma =>
      obtain ⟨rfl, rfl⟩ := List.cons.inj hprint
      rfl

/-- What is read is a lexeme that can come out of a text, as long as it can be. -/
theorem Lexeme.valid_of_read {c : Char} {t rest : Text} {l : Lexeme}
    (h : Lexeme.read c t = .ok (l, rest)) : l.Valid ∧ l.EndsBefore rest := by
  unfold Lexeme.read at h
  split at h
  · next hc =>
      cases h
      unfold Lexeme.ofChar? at hc
      split at hc <;> cases hc <;> exact ⟨trivial, trivial⟩
  · split at h
    · split at h
      · split at h
        · cases h
        · next hend =>
            cases h
            exact ⟨trivial, by simpa [Lexeme.EndsBefore] using hend⟩
      · cases h
    · split at h
      · next hstart =>
          cases h
          refine ⟨by simpa [Lexeme.Valid, Text.isName] using hstart, ?_⟩
          change Text.startsNameChar (t.dropWhile isNameChar) = false
          cases hd : t.dropWhile isNameChar with
          | nil => rfl
          | cons d r =>
              have := List.head?_dropWhile_not isNameChar t
              simpa [hd, Text.startsNameChar] using this
      · cases h

theorem Lexeme.print_eq_cons {l : Lexeme} (hvalid : l.Valid) :
    ∃ c u, l.print = c :: u ∧ isBlank c = false := by
  cases l with
  | name n =>
      cases n with
      | nil => exact absurd hvalid (by simp [Lexeme.Valid, Text.isName])
      | cons c u =>
          exact ⟨c, u, rfl, isBlank_eq_false_of_mem_name hvalid (by simp)⟩
  | pcdata => exact ⟨'#', "PCDATA".toList, rfl, by decide⟩
  | mark m => exact ⟨m.char, [], rfl, by cases m <;> decide⟩
  | leftParen | rightParen | bar | comma => exact ⟨_, [], rfl, by decide⟩

/-! ### All tokens -/

theorem tokensFrom_blank {done : List Token} {offset : Nat} {c : Char} {t : Text}
    (h : isBlank c = true) :
    tokensFrom done offset (c :: t) = tokensFrom done (offset + c.utf8Size) t := by
  rw [tokensFrom]
  simp [h]

theorem tokensFrom_of_read {done : List Token} {offset : Nat} {c : Char} {t rest : Text}
    {l : Lexeme} (hc : isBlank c = false) (hread : Lexeme.read c t = .ok (l, rest)) :
    tokensFrom done offset (c :: t) =
      tokensFrom (⟨offset, l⟩ :: done) (offset + Text.size l.print) rest := by
  rw [tokensFrom, if_neg (by simp [hc])]
  split
  · next herror =>
    rw [hread] at herror
    cases herror
  · next hok =>
    rw [hread] at hok
    cases hok
    rfl

theorem tokensFrom_lexeme {done : List Token} {offset : Nat} {l : Lexeme} {t : Text}
    (hvalid : l.Valid) (hends : l.EndsBefore t) :
    tokensFrom done offset (l.print ++ t) =
      tokensFrom (⟨offset, l⟩ :: done) (offset + Text.size l.print) t := by
  obtain ⟨c, u, hprint, hblank⟩ := Lexeme.print_eq_cons hvalid
  have hread := Lexeme.read_print hvalid hends hprint
  rw [show l.print ++ t = c :: (u ++ t) by simp [hprint]]
  exact tokensFrom_of_read hblank hread

theorem tokensFrom_of_lexes {t : Text} {ls : List Lexeme} (h : Lexes t ls) (done : List Token)
    (offset : Nat) : ∃ toks, tokensFrom done offset t = .ok (done.reverse ++ toks) ∧
      toks.map Token.lexeme = ls := by
  induction h generalizing done offset with
  | nil => exact ⟨[], by rw [tokensFrom]; simp, rfl⟩
  | blank hb _ ih =>
      rw [tokensFrom_blank hb]
      exact ih done _
  | @lexeme l t ls hvalid hends _ ih =>
      obtain ⟨toks, htoks, hls⟩ := ih (⟨offset, l⟩ :: done) (offset + Text.size l.print)
      refine ⟨⟨offset, l⟩ :: toks, ?_, by simp [hls]⟩
      rw [tokensFrom_lexeme hvalid hends, htoks]
      simp

/-- A text from which tokens are read consists of their lexemes. -/
theorem lexes_of_tokensFrom {done toks : List Token} {offset : Nat} {t : Text}
    (h : tokensFrom done offset t = .ok toks) :
    ∃ ls, Lexes t ls ∧ toks.map Token.lexeme = (done.map Token.lexeme).reverse ++ ls := by
  fun_induction tokensFrom done offset t with
  | case1 done offset =>
      cases h
      exact ⟨[], .nil, by simp⟩
  | case2 done offset c t hb ih =>
      obtain ⟨ls, hls, hmap⟩ := ih h
      exact ⟨ls, .blank hb hls, hmap⟩
  | case3 => cases h
  | case4 done offset c t hb l rest hread ih =>
      obtain ⟨ls, hls, hmap⟩ := ih h
      obtain ⟨u, hprint, rfl⟩ := Lexeme.print_of_read hread
      obtain ⟨hvalid, hends⟩ := Lexeme.valid_of_read hread
      refine ⟨l :: ls, ?_, by simp [hmap]⟩
      have hlex := Lexes.lexeme hvalid hends hls
      rwa [hprint] at hlex

/-- Reading succeeds for the texts that consist of lexemes, and gives these. -/
theorem exists_tokens_iff {raw : Text} {ls : List Lexeme} :
    (∃ toks, tokens raw = .ok toks ∧ toks.map Token.lexeme = ls) ↔ Lexes raw ls := by
  constructor
  · rintro ⟨toks, htoks, rfl⟩
    obtain ⟨ls, hls, hmap⟩ := lexes_of_tokensFrom htoks
    have hmap : toks.map Token.lexeme = ls := by simpa using hmap
    exact hmap ▸ hls
  · intro h
    simpa [tokens] using tokensFrom_of_lexes h [] 0

/-- A text consists of lexemes in one way at most. -/
theorem Lexes.unique {t : Text} {ls ls' : List Lexeme} (h : Lexes t ls) (h' : Lexes t ls') :
    ls = ls' := by
  obtain ⟨toks, htoks, rfl⟩ := exists_tokens_iff.2 h
  obtain ⟨toks', htoks', rfl⟩ := exists_tokens_iff.2 h'
  rw [htoks] at htoks'
  cases htoks'
  rfl

/-! ### Texts and their lexemes -/

theorem Lexes.valid {t : Text} {ls : List Lexeme} (h : Lexes t ls) : ∀ l ∈ ls, l.Valid := by
  induction h with
  | nil => simp
  | blank _ _ ih => exact ih
  | lexeme hvalid _ _ ih => simpa using ⟨hvalid, ih⟩

theorem Lexes.subset_of_mem {t : Text} {ls : List Lexeme} (h : Lexes t ls) {l : Lexeme}
    (hl : l ∈ ls) : l.print ⊆ t := by
  induction h with
  | nil => cases hl
  | blank _ _ ih => exact fun c hc => List.mem_cons_of_mem _ (ih hl hc)
  | lexeme _ _ _ ih =>
      intro c hc
      rcases List.mem_cons.1 hl with rfl | hl
      · exact List.mem_append_left _ hc
      · exact List.mem_append_right _ (ih hl hc)

theorem Lexes.isBlank_of_mem {t : Text} (h : Lexes t []) : ∀ c ∈ t, isBlank c = true := by
  generalize hls : ([] : List Lexeme) = ls at h
  induction h with
  | nil => simp
  | blank hb _ ih => simpa using ⟨hb, ih hls⟩
  | lexeme => cases hls

theorem Lexes.exists_of_singleton {t : Text} {l : Lexeme} (h : Lexes t [l]) :
    ∃ a b, t = a ++ l.print ++ b ∧ (∀ c ∈ a, isBlank c = true) ∧
      ∀ c ∈ b, isBlank c = true := by
  generalize hls : [l] = ls at h
  -- blanks go in front; the lexeme itself leaves a text of blanks alone
  induction h with
  | nil => cases hls
  | @blank c t ls hb _ ih =>
      obtain ⟨a, b, rfl, ha, hb'⟩ := ih hls
      exact ⟨c :: a, b, rfl, by simpa using ⟨hb, ha⟩, hb'⟩
  | @lexeme l' t ls _ _ h =>
      cases hls
      exact ⟨[], t, rfl, by simp, h.isBlank_of_mem⟩

theorem Lexes.blanks {s t : Text} {ls : List Lexeme} (hs : ∀ c ∈ s, isBlank c = true)
    (h : Lexes t ls) : Lexes (s ++ t) ls := by
  induction s with
  | nil => exact h
  | cons c s ih => exact .blank (hs c (by simp)) (ih fun d hd => hs d (by simp [hd]))

/-- A name is all that a text consists of exactly if trimming the blanks leaves the name. -/
theorem lexes_name_iff {raw n : Text} (hn : Text.isName n = true) :
    Lexes raw [.name n] ↔ Text.trimBy isBlank raw = n := by
  constructor
  · intro h
    obtain ⟨a, b, rfl, ha, hb⟩ := h.exists_of_singleton
    refine Text.trimBy_append ha (fun c hc => isBlank_eq_false_of_mem_name hn hc) hb ?_
    rintro rfl
    cases hn
  · intro h
    obtain ⟨a, b, hraw, ha, hb⟩ := Text.exists_append_trimBy isBlank raw
    have hrest : Lexes b [] := by simpa using Lexes.blanks hb .nil
    have hend : Text.startsNameChar b = false := by
      cases b with
      | nil => rfl
      | cons c b => exact isNameChar_eq_false_of_isBlank (hb c (by simp))
    rw [hraw, h, List.append_assoc]
    exact .blanks ha (.lexeme (l := .name n) hn hend hrest)

theorem Lexes.mark {t : Text} {ls : List Lexeme} (mark : Option Mark) (h : Lexes t ls) :
    Lexes (printMark mark ++ t) (markLexemes mark ++ ls) := by
  cases mark with
  | none => exact h
  | some m => exact .lexeme (l := .mark m) trivial trivial h

theorem startsNameChar_printMark {t : Text} (mark : Option Mark)
    (h : Text.startsNameChar t = false) :
    Text.startsNameChar (printMark mark ++ t) = false := by
  cases mark with
  | none => exact h
  | some m => cases m <;> (change isNameChar _ = false; decide)

namespace Particle

theorem startsNameChar_printMore (kind : GroupKind) (ps : List Particle) (t : Text) :
    Text.startsNameChar (printMore kind ps ++ ')' :: t) = false := by
  cases ps with
  | nil =>
      change isNameChar ')' = false
      decide
  | cons p ps =>
      change isNameChar kind.separator = false
      cases kind <;> decide

theorem lexes_separator {t : Text} {ls : List Lexeme} (kind : GroupKind) (h : Lexes t ls) :
    Lexes (kind.separator :: t) (kind.lexeme :: ls) := by
  cases kind with
  | sequence => exact .lexeme (l := .comma) trivial trivial h
  | choice => exact .lexeme (l := .bar) trivial trivial h

mutual

/-- The canonical form of a particle with names in it consists of its canonical lexemes,
whatever may follow that does not prolong a name. -/
theorem lexes_print_append {t : Text} {ls : List Lexeme} (p : Particle)
    (hnames : ∀ n, Mentions n p → Text.isName n = true) (hend : Text.startsNameChar t = false)
    (h : Lexes t ls) : Lexes (p.print ++ t) (p.lexemes ++ ls) := by
  cases p with
  | name n mark =>
      -- behind a name comes its mark or what follows, and neither prolongs it
      have hn : (Lexeme.name n).Valid := hnames n .name
      have hmark : (Lexeme.name n).EndsBefore (printMark mark ++ t) :=
        startsNameChar_printMark mark hend
      simpa [lexemes] using Lexes.lexeme hn hmark (h.mark mark)
  | pcdata => exact .lexeme (l := .pcdata) trivial hend h
  | group kind members mark =>
      have hclose : Lexes (')' :: (printMark mark ++ t))
          (.rightParen :: (markLexemes mark ++ ls)) :=
        .lexeme (l := .rightParen) trivial trivial (h.mark mark)
      have hmembers : Lexes (printMembers kind members ++ ')' :: (printMark mark ++ t))
          (memberLexemes kind members ++ .rightParen :: (markLexemes mark ++ ls)) := by
        cases members with
        | nil => exact hclose
        | cons p ps =>
            have hps := lexes_printMore_append kind ps (fun q hq n hn => hnames n
              (.member (by simp [hq]) hn)) hclose
            have hp := lexes_print_append p (fun n hn => hnames n (.member (by simp) hn))
              (startsNameChar_printMore kind ps _) hps
            simpa [memberLexemes] using hp
      simpa [lexemes] using Lexes.lexeme (l := .leftParen) trivial trivial hmembers

theorem lexes_printMore_append {t : Text} {ls : List Lexeme} (kind : GroupKind)
    (ps : List Particle) (hnames : ∀ p ∈ ps, ∀ n, Mentions n p → Text.isName n = true)
    (h : Lexes (')' :: t) ls) :
    Lexes (printMore kind ps ++ ')' :: t) (tailLexemes kind ps ++ ls) := by
  cases ps with
  | nil => exact h
  | cons p ps =>
      have hps := lexes_printMore_append kind ps (fun q hq => hnames q (by simp [hq])) h
      have hp :=
        lexes_print_append p (hnames p (by simp)) (startsNameChar_printMore kind ps _) hps
      simpa [tailLexemes] using lexes_separator kind hp

end

/-- The canonical form of a particle consists of its canonical lexemes. -/
theorem lexes_print {p : Particle} (hnames : ∀ n, Mentions n p → Text.isName n = true) :
    Lexes p.print p.lexemes := by
  have hend : Text.startsNameChar [] = false := rfl
  simpa using lexes_print_append p hnames hend Lexes.nil

end Particle
end Doctype.Content
