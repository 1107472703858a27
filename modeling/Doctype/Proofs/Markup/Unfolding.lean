import Mathlib.Data.Finset.Card
import Doctype.Proofs.Markup.Expansion
import Doctype.Proofs.Markup.Pieces

/-!
Expanding the references of a text outside quotation marks, apart from any way of doing it.
`Unfolds` goes through a text from left to right and through the replacement texts of the
entities it meets, each with quotation marks of its own, and either comes to an expanded text
or is led back to an entity that is being expanded (`Unfolds.mem_active`). Every text has an
outcome where all replacement texts can be found (`exists_unfolds`).
-/

namespace Doctype.Markup

variable {resolver : Resolver} {entities : List (Text × Replacement)} {active : List Text}
  {asked : List Request} {n t u v w : Text} {q : Char} {r : Replacement}

/-! ### Outcomes -/

/-- What comes of expanding a text: the expanded text and all that was asked for by then, or an
entity that is referred to while it is being expanded, with the entities that are. -/
inductive Outcome
  | text (t : Text) (asked : List Request)
  | recursion (name : Text) (active : List Text)

def Outcome.after (w : Text) : Outcome → Outcome
  | text t asked => text (w ++ t) asked
  | recursion name active => recursion name active

/-- `Unfolds resolver entities active asked t o`: expanding the text from left to right,
outside quotation marks, while the entities `active` are being expanded and after the requests
`asked`, has the outcome `o`. -/
inductive Unfolds (resolver : Resolver) (entities : List (Text × Replacement)) :
    List Text → List Request → Text → Outcome → Prop
  | nil {active : List Text} {asked : List Request} :
      Unfolds resolver entities active asked [] (.text [] asked)
  | char {active : List Text} {asked : List Request} {c : Char} {t : Text} {o : Outcome} :
      c ≠ '%' → Lexer.isQuote c = false → Unfolds resolver entities active asked t o →
        Unfolds resolver entities active asked (c :: t) (o.after [c])
  | percent {active : List Text} {asked : List Request} {t : Text} {o : Outcome} :
      (∀ n u, Text.isName n = true → t ≠ n ++ ';' :: u) →
      Unfolds resolver entities active asked t o →
        Unfolds resolver entities active asked ('%' :: t) (o.after ['%'])
  | quoted {active : List Text} {asked : List Request} {q : Char} {v t : Text} {o : Outcome} :
      Lexer.isQuote q = true → q ∉ v → Unfolds resolver entities active asked t o →
        Unfolds resolver entities active asked (q :: v ++ q :: t) (o.after (q :: v ++ [q]))
  | unclosed {active : List Text} {asked : List Request} {q : Char} {v : Text} :
      Lexer.isQuote q = true →
      q ∉ v → Unfolds resolver entities active asked (q :: v) (.text (q :: v) asked)
  | undeclared {active : List Text} {asked : List Request} {n t : Text} {o : Outcome} :
      Text.isName n = true →
      entities.lookup n = none → Unfolds resolver entities active asked t o →
        Unfolds resolver entities active asked (writeReference n ++ t)
          (o.after (writeReference n))
  | recursive {active : List Text} {asked : List Request} {n t : Text} {r : Replacement} :
      Text.isName n = true → entities.lookup n = some r → n ∈ active →
        Unfolds resolver entities active asked (writeReference n ++ t) (.recursion n active)
  | inner {active active' : List Text} {asked : List Request} {n m t u : Text}
    {r : Replacement} :
      Text.isName n = true → entities.lookup n = some r → r.text? resolver asked = some u →
      n ∉ active →
        Unfolds resolver entities (active ++ [n]) (asked ++ r.requests) u
          (.recursion m active') →
          Unfolds resolver entities active asked (writeReference n ++ t) (.recursion m active')
  | replaced {active : List Text} {asked asked' : List Request} {n t u v : Text}
    {r : Replacement} {o : Outcome} :
      Text.isName n = true → entities.lookup n = some r → r.text? resolver asked = some u →
      n ∉ active →
        Unfolds resolver entities (active ++ [n]) (asked ++ r.requests) u (.text v asked') →
          Unfolds resolver entities active asked' t o →
            Unfolds resolver entities active asked (writeReference n ++ t)
              (o.after (' ' :: v ++ [' ']))

/-! ### The pieces of a text -/

theorem reference?_eq_none_iff :
    reference? t = none ↔ ∀ n u, Text.isName n = true → t ≠ n ++ ';' :: u := by
  rw [Option.eq_none_iff_forall_ne_some]
  simp only [Prod.forall, ne_eq, reference?_eq_some_iff, not_and]

/-- Where a text is not at its end, it begins with a character that means nothing, a percent
sign alone, a reference, or a quotation mark that is closed or not. -/
theorem text_cases (t : Text) : t = [] ∨
    (∃ c u, t = c :: u ∧ c ≠ '%' ∧ Lexer.isQuote c = false) ∨
    (∃ u, t = '%' :: u ∧ ∀ n w, Text.isName n = true → u ≠ n ++ ';' :: w) ∨
    (∃ n u, t = writeReference n ++ u ∧ Text.isName n = true) ∨
    ∃ q v, Lexer.isQuote q = true ∧ q ∉ v ∧ (t = q :: v ∨ ∃ u, t = q :: v ++ q :: u) := by
  cases t with
  | nil => exact .inl rfl
  | cons c t =>
      right
      by_cases hpercent : c = '%'
      · subst hpercent
        cases hreference : reference? t with
        | none => exact .inr (.inl ⟨t, rfl, reference?_eq_none_iff.1 hreference⟩)
        | some p =>
            obtain ⟨hn, rfl⟩ := reference?_eq_some_iff.1 hreference
            exact .inr (.inr (.inl ⟨p.1, p.2, by simp [writeReference], hn⟩))
      · cases hquote : Lexer.isQuote c with
        | false => exact .inl ⟨c, t, rfl, hpercent, hquote⟩
        | true =>
            refine .inr (.inr (.inr ?_))
            by_cases hc : c ∈ t
            · obtain ⟨v, u, rfl, hv⟩ := List.eq_append_cons_of_mem hc
              exact ⟨c, v, hquote, hv, .inr ⟨u, rfl⟩⟩
            · exact ⟨c, t, hquote, hc, .inl rfl⟩

theorem pieces_closed (hv : q ∉ v) (t : Text) :
    piecesFrom false (some q) [] (v ++ q :: t) = (v ++ [q]).map .char ++ pieces false t := by
  induction v with
  | nil => simp [pieces_char, quoteAfter, pieces]
  | cons c v ih =>
      obtain ⟨hc, hv⟩ := not_or.1 (mt List.mem_cons.2 hv)
      have hafter : quoteAfter (some q) c = some q := by simp [quoteAfter, Ne.symm hc]
      rw [List.cons_append, pieces_char (by simp), hafter, ih hv]
      rfl

theorem pieces_unclosed (hv : q ∉ v) : piecesFrom false (some q) [] v = v.map .char := by
  induction v with
  | nil => simp [piecesFrom]
  | cons c v ih =>
      obtain ⟨hc, hv⟩ := not_or.1 (mt List.mem_cons.2 hv)
      have hafter : quoteAfter (some q) c = some q := by simp [quoteAfter, Ne.symm hc]
      rw [pieces_char (by simp), hafter, ih hv]
      rfl

theorem pieces_quote (hq : Lexer.isQuote q = true) (t : Text) :
    pieces false (q :: t) = .char q :: piecesFrom false (some q) [] t := by
  have hpercent : q ≠ '%' := by
    rintro rfl
    cases hq
  have hafter : quoteAfter none q = some q := by simp [quoteAfter, hq]
  rw [pieces, pieces_char (by simp [hpercent]), hafter]

theorem pieces_writeReference (hn : Text.isName n = true) (t : Text) :
    pieces false (writeReference n ++ t) = .reference n false :: pieces false t := by
  have heq : writeReference n ++ t = '%' :: (n ++ ';' :: t) := by simp [writeReference]
  rw [heq, pieces, pieces_reference (reference?_eq_some_iff.2 ⟨hn, rfl⟩) rfl]
  rfl

/-- The entity that is referred to while it is being expanded is one of those that are, and
these go on from the ones at the beginning. -/
theorem Unfolds.mem_active {m : Text} {active' : List Text}
    (h : Unfolds resolver entities active asked t (.recursion m active')) :
    m ∈ active' ∧ active <+: active' := by
  generalize ho : Outcome.recursion m active' = o at h
  have after_eq {w : Text} {o : Outcome} (h : Outcome.recursion m active' = o.after w) :
      Outcome.recursion m active' = o := by
    cases o with
    | text => cases h
    | recursion => exact h
  induction h with
  | nil => cases ho
  | unclosed => cases ho
  | char _ _ _ ih => exact ih (after_eq ho)
  | percent _ _ ih => exact ih (after_eq ho)
  | quoted _ _ _ ih => exact ih (after_eq ho)
  | undeclared _ _ _ ih => exact ih (after_eq ho)
  | recursive _ _ hmem =>
      cases ho
      exact ⟨hmem, List.prefix_rfl⟩
  | inner _ _ _ _ _ ih =>
      obtain ⟨hmem, hprefix⟩ := ih ho
      exact ⟨hmem, (List.prefix_append _ _).trans hprefix⟩
  | replaced _ _ _ _ _ _ _ ih => exact ih (after_eq ho)

/-! ### Existence -/

def unopened (entities : List (Text × Replacement)) (active : List Text) : Finset Text :=
  (entities.map Prod.fst).toFinset \ active.toFinset

theorem card_unopened_lt (hname : entities.lookup n = some r) (hactive : n ∉ active) :
    (unopened entities (active ++ [n])).card < (unopened entities active).card := by
  have hmem : n ∈ entities.map Prod.fst := by
    obtain ⟨before, after, rfl, -⟩ := List.lookup_eq_some_iff.1 hname
    simp
  apply Finset.card_lt_card
  refine Finset.ssubset_iff_of_subset (fun m hm => ?_) |>.2 ⟨n, ?_, ?_⟩
  · simp only [unopened, Finset.mem_sdiff, List.mem_toFinset, List.mem_append, not_or] at hm ⊢
    exact ⟨hm.1, hm.2.1⟩
  · simpa [unopened, hactive] using hmem
  · simp [unopened]

/-- Every text has an outcome. An entity that is entered is not entered again within its
replacement text, and else less of the text is left. -/
theorem exists_unfolds
    (hanswers : ∀ n r, entities.lookup n = some r → ∀ asked, ∃ u,
      r.text? resolver asked = some u)
    (active : List Text) (asked : List Request) (t : Text) :
    ∃ o, Unfolds resolver entities active asked t o := by
  induction hopen : (unopened entities active).card using Nat.strong_induction_on
    generalizing active asked t with
  | _ count ihinner =>
  induction hlength : t.length using Nat.strong_induction_on generalizing asked t with
  | _ length ih =>
  obtain rfl | ⟨c, u, rfl, hc, hquote⟩ | ⟨u, rfl, hu⟩ | ⟨n, u, rfl, hn⟩ | ⟨q, v, hq, hv,
    rfl | ⟨u, rfl⟩⟩ := text_cases t
  · exact ⟨_, .nil⟩
  · obtain ⟨o, ho⟩ := ih u.length (by simp [← hlength]) asked u rfl
    exact ⟨_, .char hc hquote ho⟩
  · obtain ⟨o, ho⟩ := ih u.length (by simp [← hlength]) asked u rfl
    exact ⟨_, .percent hu ho⟩
  · have hrest (asked : List Request) :=
      ih u.length (by simp [← hlength, writeReference]; omega) asked u rfl
    cases hname : entities.lookup n with
    | none =>
        obtain ⟨o, ho⟩ := hrest asked
        exact ⟨_, .undeclared hn hname ho⟩
    | some r =>
        by_cases hactive : n ∈ active
        · exact ⟨_, .recursive hn hname hactive⟩
        · obtain ⟨w, hw⟩ := hanswers n r hname asked
          obtain ⟨o', ho'⟩ :=
            ihinner _ (hopen ▸ card_unopened_lt hname hactive) (active ++ [n])
            (asked ++ r.requests) w rfl
          cases o' with
          | text v asked' =>
              obtain ⟨o, ho⟩ := hrest asked'
              exact ⟨_, .replaced hn hname hw hactive ho' ho⟩
          | recursion m active' => exact ⟨_, .inner hn hname hw hactive ho'⟩
  · exact ⟨_, .unclosed hq hv⟩
  · obtain ⟨o, ho⟩ := ih u.length (by simp [← hlength]; omega) asked u rfl
    exact ⟨_, .quoted hq hv ho⟩

end Doctype.Markup
