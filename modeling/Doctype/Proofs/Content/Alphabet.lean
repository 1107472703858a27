import Doctype.Proofs.Content.RoundTrip
import Doctype.Proofs.Graph.Declared
import Doctype.Proofs.Text.Alphabet

/-!
Content specifications over an alphabet. The names in a model are names of XML. What stands for
a model that could not be read is its text and a wording, which tells a character or a token of
that text at most (`Spec.over_ofRaw`). The canonical form of a specification has no other
characters than its texts (`Spec.over_print`).
-/

namespace Doctype.Content

variable {A : Char → Prop}

/-! ### Faults -/

def Fault.Over (A : Char → Prop) : Fault → Prop
  | unexpectedChar c => A c
  | expectedSeparator found => Text.Over A found.print
  | expectedParticle found => Text.Over A found.print
  | unexpectedInMixed found => Text.Over A found.print
  | trailing found => Text.Over A found.print
  | other message => Text.Over A message
  | _ => True

theorem Lexeme.over_describe (hA : Covers A) {l : Lexeme} (h : Text.Over A l.print) :
    Text.Over A l.describe := by
  have hquote : Text.Over A ("'" : Text) := hA.text (by decide +kernel)
  cases l with
  | name n => exact .append (.append (hA.text (by decide +kernel)) h) hquote
  | _ => exact .append (hquote.append h) hquote

theorem Fault.over_message (hA : Covers A) {f : Fault} (h : f.Over A) :
    Text.Over A f.message := by
  have hfound {l : Lexeme} {t : Text} (hl : Text.Over A l.print) (ht : t.all isLegal = true) :
      Text.Over A (("unexpected " : Text) ++ l.describe ++ t) :=
    .append (.append (hA.text (by decide +kernel)) (Lexeme.over_describe hA hl)) (hA.text ht)
  cases f with
  | unexpectedChar c =>
      have hc : Text.Over A [c] := Text.over_nil.cons h
      exact .append (.append (hA.text (by decide +kernel)) hc) (hA.text (by decide +kernel))
  | tooDeep bound => exact .append (hA.text (by decide +kernel)) (hA.decimal bound)
  | expectedSeparator found => exact hfound h (by decide +kernel)
  | expectedParticle found => exact hfound h (by decide +kernel)
  | unexpectedInMixed found => exact hfound h (by decide +kernel)
  | trailing found => exact hfound h (by decide +kernel)
  | mixedMarked m => cases m <;> exact hA.text (by decide +kernel)
  | other message => exact h
  | _ => exact hA.text (by decide +kernel)

/-! ### Tokens -/

def TokensOver (A : Char → Prop) (toks : List Token) : Prop :=
  ∀ tok ∈ toks, Text.Over A tok.lexeme.print

theorem Lexeme.over_of_read_eq_error {c : Char} {t : Text} {f : Fault} (hc : A c)
    (h : Lexeme.read c t = .error f) : f.Over A := by
  unfold Lexeme.read at h
  split at h
  · cases h
  · split at h
    · split at h
      · split at h <;> cases h
        trivial
      · cases h
        trivial
    · split at h <;> cases h
      exact hc

theorem over_of_tokensFrom_eq_error {done : List Token} {offset : Nat} {t : Text} {f : Failure}
    (ht : Text.Over A t) (h : tokensFrom done offset t = .error f) : f.fault.Over A := by
  fun_induction tokensFrom done offset t with
  | case1 => cases h
  | case2 done offset c t _ ih => exact ih (Text.over_cons.1 ht).2 h
  | case3 done offset c t _ fault hread =>
      cases h
      exact Lexeme.over_of_read_eq_error (Text.over_cons.1 ht).1 hread
  | case4 done offset c t _ l rest hread ih =>
      obtain ⟨u, -, rfl⟩ := Lexeme.print_of_read hread
      exact ih (Text.over_append.1 (Text.over_cons.1 ht).2).2 h

theorem tokensOver_of_tokens {raw : Text} {toks : List Token} (hraw : Text.Over A raw)
    (h : tokens raw = .ok toks) : TokensOver A toks := by
  have hlexes : Lexes raw (toks.map Token.lexeme) := exists_tokens_iff.1 ⟨toks, h, rfl⟩
  exact fun tok htok => hraw.of_subset (hlexes.subset_of_mem (List.mem_map_of_mem htok))

/-- A result of reading tokens: those that are left, or the fault, are over the alphabet. -/
def Fits (A : Char → Prop) : Except Failure (Particle × List Token) → Prop
  | .ok (_, rest) => TokensOver A rest
  | .error f => f.fault.Over A

mutual

theorem readMember_fits (bound stop : Nat) (outer : List OpenGroup) (g : OpenGroup)
    {toks : List Token} (h : TokensOver A toks) :
    Fits A (readMember bound stop outer g toks) := by
  unfold readMember
  split
  · next n _ m rest =>
    have hrest := (List.forall_mem_cons.1 (List.forall_mem_cons.1 h).2).2
    exact readSeparator_fits bound stop outer _ hrest
  · exact readSeparator_fits bound stop outer _ (List.forall_mem_cons.1 h).2
  · split
    · exact readMember_fits bound stop _ _ (List.forall_mem_cons.1 h).2
    · trivial
  · trivial
  · exact (List.forall_mem_cons.1 h).1
  · trivial
termination_by toks.length

theorem readSeparator_fits (bound stop : Nat) (outer : List OpenGroup) (g : OpenGroup)
    {toks : List Token} (h : TokensOver A toks) :
    Fits A (readSeparator bound stop outer g toks) := by
  unfold readSeparator
  split
  · next rest =>
    have hrest := (List.forall_mem_cons.1 (List.forall_mem_cons.1 h).2).2
    cases outer with
    | nil => exact hrest
    | cons parent outer => exact readSeparator_fits bound stop outer _ hrest
  · cases outer with
    | nil => exact (List.forall_mem_cons.1 h).2
    | cons parent outer =>
        exact readSeparator_fits bound stop outer _ (List.forall_mem_cons.1 h).2
  · split
    · exact readMember_fits bound stop outer _ (List.forall_mem_cons.1 h).2
    · trivial
  · split
    · exact readMember_fits bound stop outer _ (List.forall_mem_cons.1 h).2
    · trivial
  · exact (List.forall_mem_cons.1 h).1
  · trivial
termination_by toks.length

end

theorem closeMixed_fits (stop : Nat) (names : List Text) {toks : List Token}
    (h : TokensOver A toks) : Fits A (closeMixed stop names toks) := by
  unfold closeMixed
  dsimp only
  split
  · exact (List.forall_mem_cons.1 h).2
  · trivial
  · split
    · exact h
    · split <;> trivial

theorem readMixed_fits (stop : Nat) (names : List Text) {toks : List Token}
    (h : TokensOver A toks) : Fits A (readMixed stop names toks) := by
  fun_induction readMixed stop names toks with
  | case1 => exact closeMixed_fits stop _ (List.forall_mem_cons.1 h).2
  | case3 names _ _ n rest _ ih =>
      exact ih (List.forall_mem_cons.1 (List.forall_mem_cons.1 h).2).2
  | case5 => exact (List.forall_mem_cons.1 (List.forall_mem_cons.1 h).2).1
  | case8 => exact (List.forall_mem_cons.1 h).1
  | _ => trivial

/-! ### Specifications -/

def Spec.Over (A : Char → Prop) : Spec → Prop
  | mixed p => ∀ n, p.Mentions n → Text.Over A n
  | children p => ∀ n, p.Mentions n → Text.Over A n
  | invalid raw message => Text.Over A raw ∧ Text.Over A message
  | _ => True

theorem Spec.over_of_forall (h : ∀ c, A c) (s : Spec) : s.Over A := by
  cases s with
  | invalid raw message => exact ⟨fun c _ => h c, fun c _ => h c⟩
  | mixed p => exact fun _ _ c _ => h c
  | children p => exact fun _ _ c _ => h c
  | _ => trivial

theorem Fits.over_of_expectEnd {x : Except Failure (Particle × List Token)} (hx : Fits A x)
    {spec : Particle → Spec} {f : Failure}
    (h : (do let (model, rest) ← x; expectEnd rest; return spec model) = .error f) :
    f.fault.Over A := by
  cases x with
  | error f' =>
      cases h
      exact hx
  | ok p =>
      obtain ⟨model, rest⟩ := p
      cases rest with
      | nil => cases h
      | cons tok rest =>
          cases h
          exact (List.forall_mem_cons.1 hx).1

theorem Spec.over_of_ofTokens_eq_error {bound : Nat} {toks : List Token} {f : Failure}
    (htoks : TokensOver A toks) (h : Spec.ofTokens bound toks = .error f) :
    f.fault.Over A := by
  unfold Spec.ofTokens at h
  dsimp only at h
  split at h
  · have hrest := (List.forall_mem_cons.1 (List.forall_mem_cons.1 htoks).2).2
    exact (readMixed_fits _ _ hrest).over_of_expectEnd h
  · split at h
    · exact (readMember_fits _ _ _ _ (List.forall_mem_cons.1 htoks).2).over_of_expectEnd h
    · cases h
      trivial
  · cases h
    trivial

theorem Spec.over_of_parse_eq_error {bound : Nat} {raw : Text} {f : Failure}
    (hraw : Text.Over A raw) (h : Spec.parse bound raw = .error f) : f.fault.Over A := by
  unfold Spec.parse at h
  dsimp only at h
  split at h
  · cases h
  · split at h
    · cases h
    · split at h
      · cases h
        trivial
      · cases htoks : tokens raw with
        | error f' =>
            rw [htoks] at h
            cases h
            exact over_of_tokensFrom_eq_error hraw htoks
        | ok toks =>
            rw [htoks] at h
            exact over_of_ofTokens_eq_error (tokensOver_of_tokens hraw htoks) h

/-- The specification that a text over the alphabet stands for. -/
theorem Spec.over_ofRaw (hA : Covers A) (bound : Nat) {raw : Text} (hraw : Text.Over A raw) :
    (Spec.ofRaw bound raw).Over A := by
  unfold Spec.ofRaw
  cases hparse : Spec.parse bound raw with
  | error f =>
      exact ⟨hraw.trim, Fault.over_message hA (Spec.over_of_parse_eq_error hraw hparse)⟩
  | ok spec =>
      cases Spec.regular_of_parse hparse with
      | empty => trivial
      | any => trivial
      | children _ _ hnames _ => exact fun n hn => hA.name (hnames n hn)
      | mixed _ hnames => exact fun n hn => hA.name (hnames n (mentions_mixedModel_iff.1 hn))

/-! ### Written forms -/

theorem over_printMark (hA : Covers A) (mark : Option Mark) :
    Text.Over A (printMark mark) := by
  cases mark with
  | none => exact Text.over_nil
  | some m => exact hA.text (by cases m <;> decide)

mutual

theorem Particle.over_print (hA : Covers A) (p : Particle)
    (h : ∀ n, p.Mentions n → Text.Over A n) : Text.Over A p.print := by
  cases p with
  | name n mark => exact .append (h n .name) (over_printMark hA mark)
  | pcdata => exact hA.text (by decide)
  | group kind members mark =>
      have hmembers : Text.Over A (printMembers kind members) := by
        cases members with
        | nil => exact Text.over_nil
        | cons p ps =>
            have hp := over_print hA p fun n hn => h n (.member List.mem_cons_self hn)
            have hps := over_printMore hA kind ps fun q hq n hn =>
              h n (.member (List.mem_cons_of_mem _ hq) hn)
            exact hp.append hps
      rw [print_group, Text.over_cons, Text.over_append, Text.over_cons]
      exact ⟨hA.char (by decide), hmembers, hA.char (by decide), over_printMark hA mark⟩

theorem Particle.over_printMore (hA : Covers A) (kind : GroupKind) (ps : List Particle)
    (h : ∀ p ∈ ps, ∀ n, p.Mentions n → Text.Over A n) : Text.Over A (printMore kind ps) := by
  cases ps with
  | nil => exact Text.over_nil
  | cons p ps =>
      obtain ⟨hp, hps⟩ := List.forall_mem_cons.1 h
      rw [printMore_cons, Text.over_cons, Text.over_append]
      exact ⟨hA.char (by cases kind <;> decide), over_print hA p hp,
        over_printMore hA kind ps hps⟩

end

theorem Spec.over_print (hA : Covers A) {c : Spec} (h : c.Over A) : Text.Over A c.print := by
  cases c with
  | empty => exact hA.text (by decide)
  | any => exact hA.text (by decide)
  | mixed p => exact p.over_print hA h
  | children p => exact p.over_print hA h
  | invalid raw message => exact h.1

theorem Spec.over_label (hA : Covers A) (c : Spec) : Text.Over A c.label := by
  cases c <;> exact hA.text rfl

end Doctype.Content
