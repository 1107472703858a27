import Doctype.Markup.OffsetScan
import Doctype.Proofs.Markup.Attempt
import Doctype.Proofs.Markup.Expansion
import Doctype.Proofs.Markup.Offsets

/-!
Expanding references by byte offsets. The references of a body are expanded where they stand,
and the texts that they are replaced with are expanded in turn; an entity is entered if it is
not active and the limits allow it. There is no count of steps or levels: what is expanded next
must be smaller, which is measured by the levels that the limits leave above the active
entities and then by what is left of the text. It always is, no slice is missing, and it comes
to what a scan comes to at that level (`leads_expandAt`).
-/

namespace Doctype.Markup

open Text (offset)

variable {σ α β γ : Type} {c : Setting σ} {fail : Fault → Error} {inLiterals : Bool}
  {text rest left name : Text}
  {level : Nat} {quote : Option Char} {out : Buffer} {s t : State σ}

/-! ### Calls -/

section Calls

variable {call call' : Expanding → Attempt σ Text}

theorem extends_replaceAt (h : ∀ e, Extends (call e) (call' e)) (c : Setting σ)
    (fail : Fault → Error) (name : Text) :
    Extends (replaceAt c fail call name) (replaceAt c fail call' name) := by
  refine .bind (.refl _) fun s => ?_
  cases s.entities.lookup name with
  | none => exact .refl _
  | some r =>
      exact .bind (.refl _) fun _ => .bind (.refl _) fun text => .bind (h _) fun _ => .refl _

theorem extends_expandStep (h : ∀ e, Extends (call e) (call' e)) (c : Setting σ)
    (fail : Fault → Error) (inLiterals : Bool) (e : Expanding) :
    Extends (expandStep c fail inLiterals call e) (expandStep c fail inLiterals call' e) := by
  refine .bind (.refl _) fun passage => ?_
  cases passage with
  | textEnd => exact .refl _
  | char d quote next => exact h _
  | reference name next =>
      exact .bind (extends_replaceAt h c fail name) fun _ => .bind (.refl _) fun _ => h _

end Calls

def below (f : Nat → β) : Nat → Option β
  | 0 => none
  | level + 1 => some (f level)

def expandRest (c : Setting σ) (fail : Fault → Error) (inLiterals : Bool) (level : Nat)
    (rest : Text) (quote : Option Char) (out : Buffer) : Scan σ Text := do
  let out ← (piecesFrom inLiterals quote [] rest).foldlM
    (expandPiece (expandEntity c fail (below (expand c fail inLiterals) level))) out
  check (c.limits.checkExpansionSize out.bytes)
  return out.toText

theorem expand_eq_expandRest (level : Nat) (t : Text) :
    expand c fail inLiterals level t = expandRest c fail inLiterals level t none .empty := by
  cases level <;> rfl

/-! ### Entering -/

theorem enterChecked_apply (c : Setting σ) (fail : Fault → Error) (name : Text) (s : State σ) :
    enterChecked c fail name s =
      if s.active.contains name then .error (fail (.recursiveEntity name s.active)) s
      else
        match c.limits.checkExpansions (s.expansions + 1),
          c.limits.checkDepth (s.active.length + 1) with
        | .error excess, _ =>
          .error (.limitExceeded excess) { s with expansions := s.expansions + 1 }
        | .ok (), .error excess =>
          .error (.limitExceeded excess) { s with expansions := s.expansions + 1 }
        | .ok (), .ok () =>
          .ok () { s with active := s.active ++ [name], expansions := s.expansions + 1 } := by
  unfold enterChecked
  rw [get_bind]
  by_cases hactive : s.active.contains name = true
  · simp only [hactive, if_true]
    rfl
  · simp only [hactive, Bool.false_eq_true, if_false]
    cases c.limits.checkExpansions (s.expansions + 1) with
    | error excess => rfl
    | ok u => cases c.limits.checkDepth (s.active.length + 1) <;> rfl

/-- To check the depth is to see whether there is a level below. -/
theorem leads_enter {f : Nat → β} {P : α → Scan σ γ → Prop} {active : List Text}
    {x : Attempt σ α} {y : β → Scan σ γ}
    (h : ∀ level t, levelAt c s = level + 1 → levelAt c t = level →
      t.active = s.active ++ [name] → Leads P active (x t) (y (f level) t)) :
    Leads P active ((perform (enterChecked c fail name) >>= fun _ => x) s)
      ((enter c fail (below f (levelAt c s)) name >>= y) s) := by
  rw [perform_bind_apply, bind_apply, enter_apply, enterChecked_apply]
  by_cases hactive : s.active.contains name = true
  · simp only [hactive, if_true]
    exact .error _ s
  · simp only [hactive, Bool.false_eq_true, if_false]
    cases c.limits.checkExpansions (s.expansions + 1) with
    | error excess => exact .error _ _
    | ok u =>
        cases hlevel : levelAt c s with
        | zero =>
            have hdepth : c.limits.checkDepth (s.active.length + 1) =
                .error (.depth (s.active.length + 1) c.limits.entityDepth) := by
              rw [levelAt] at hlevel
              exact if_neg (by omega)
            rw [hdepth]
            exact .error _ _
        | succ level =>
            have hdepth : c.limits.checkDepth (s.active.length + 1) = .ok () := by
              rw [levelAt] at hlevel
              exact if_pos (by omega)
            rw [hdepth]
            refine h level _ hlevel ?_ rfl
            rw [levelAt, List.length_append, List.length_singleton, ← Nat.sub_sub]
            rw [levelAt] at hlevel
            omega

theorem leads_leave {P : α → Scan σ γ → Prop} {active : List Text} {f : Unit → Attempt σ α}
    {g : Unit → Scan σ γ} (ht : t.active = active ++ [name])
    (h : ∀ u, u.active = active → Leads P active (f () u) (g () u)) :
    Leads P active ((perform leave >>= f) t) ((leave >>= g) t) :=
  .perform_seq fun _ u hu => by
    cases hu
    refine h _ ?_
    change t.active.dropLast = active
    rw [ht, List.dropLast_concat]

/-! ### Expanding -/

theorem checked_of_check {checked : Except Limits.Excess Unit} {u : Unit}
    (h : check checked s = .ok u t) : checked = .ok () := by
  cases checked with
  | error excess => cases h
  | ok u => rfl

def IsExpansion (c : Setting σ) (a b : Text) : Prop :=
  a = b ∧ c.limits.checkExpansionSize (Text.size a) = .ok ()

theorem isQuote_of_mem_quoteAfter {d q : Char} (h : ∀ q ∈ quote, Lexer.isQuote q = true)
    (hq : q ∈ quoteAfter quote d) : Lexer.isQuote q = true := by
  unfold quoteAfter at hq
  split at hq
  · split at hq
    · next hd =>
      cases hq
      exact hd
    · cases hq
  · split at hq
    · cases hq
    · exact h q hq

theorem quoteAfter_of_not_isQuote {d : Char} (h : ∀ q ∈ quote, Lexer.isQuote q = true)
    (hd : ¬ Lexer.isQuote d = true) : quoteAfter quote d = quote := by
  unfold quoteAfter
  split
  · exact if_neg hd
  · next q =>
    refine if_neg fun hdq => hd ?_
    rw [hdq]
    exact h q rfl

/-- What a passage means for the pieces of what is left. -/
inductive Passage.Means (inLiterals : Bool) (text rest : Text) (quote : Option Char) :
    Passage → Prop
  | textEnd : rest = [] → Means inLiterals text rest quote textEnd
  | char {d : Char} {quote' : Option Char} {left : Text} :
      left <:+ text → left.length < rest.length →
      (∀ q ∈ quote', Lexer.isQuote q = true) →
      piecesFrom inLiterals quote [] rest = .char d :: piecesFrom inLiterals quote' [] left →
      Means inLiterals text rest quote (char d quote' (offset text left))
  | reference {name left : Text} : rest = writeReference name ++ left →
      piecesFrom inLiterals quote [] rest =
        .reference name quote.isSome :: piecesFrom inLiterals quote [] left →
      Means inLiterals text rest quote (reference name (offset text left))

theorem passageAt_offset (h : rest <:+ text) (hquote : ∀ q ∈ quote, Lexer.isQuote q = true)
    (inLiterals : Bool) :
    ∃ passage, passageAt inLiterals text (offset text rest) quote = some passage ∧
      passage.Means inLiterals text rest quote := by
  rw [passageAt, Text.from?_offset h]
  cases rest with
  | nil => exact ⟨_, rfl, .textEnd rfl⟩
  | cons d v =>
      have hv : v <:+ text := (List.suffix_cons d v).trans h
      have hlength : v.length < (d :: v).length := Nat.lt_succ_self _
      simp only [Option.bind_eq_bind, Option.bind_some]
      split
      · next hpercent =>
        obtain ⟨hd, hread⟩ := Bool.and_eq_true_iff.1 hpercent
        obtain rfl : d = '%' := by simpa using hd
        have hbehind : Text.from? ('%' :: v) 1 = some v := Text.from?_size ['%'] v
        have hone : offset text ('%' :: v) + 1 = offset text v := (Text.offset_cons h).symm
        rw [referenceAt_offset h, hbehind, hone, Option.bind_some, Option.bind_some]
        cases href : reference? v with
        | none => exact ⟨_, rfl, .char hv hlength hquote (pieces_percent href hread)⟩
        | some p =>
            obtain ⟨name, left⟩ := p
            exact ⟨_, rfl, .reference (by simp [writeReference, reference?_eq_some href])
              (pieces_reference href hread)⟩
      · next hpercent =>
        have hpieces := pieces_char hpercent (t := v)
        split
        · next hd =>
          have hone : offset text (d :: v) + 1 = offset text v :=
            Lexer.utf8Size_of_isQuote hd ▸ (Text.offset_cons h).symm
          rw [hone]
          exact ⟨_, rfl, .char hv hlength (fun q => isQuote_of_mem_quoteAfter hquote) hpieces⟩
        · next hd =>
          rw [quoteAfter_of_not_isQuote hquote hd] at hpieces
          rw [← Text.offset_cons h]
          exact ⟨_, rfl, .char hv hlength hquote hpieces⟩

theorem insertAt_none (h : writeReference name ++ left <:+ text) (quote : Option Char)
    (out : Buffer) :
    insertAt text (offset text (writeReference name ++ left)) (offset text left)
      quote out none =
      some (out.append (writeReference name)) := by
  rw [insertAt, Text.between?_offset h, Option.map_some]

/-- An entity is replaced as in a scan, if texts are expanded as there where it is active. -/
theorem leads_replaceAt {s : State σ} {call : Expanding → Attempt σ Text}
    (hcall : ∀ level text (t : State σ), levelAt c s = level + 1 → levelAt c t = level →
      Leads (Returns (IsExpansion c)) t.active (call (.start text) t)
        (expand c fail inLiterals level text t))
    (name : Text) :
    Leads (Returns Eq) s.active (replaceAt c fail call name s)
      (expandEntity c fail (below (expand c fail inLiterals) (levelAt c s)) name s) := by
  rw [replaceAt, expandEntity]
  refine .perform_seq fun s' t hget => ?_
  cases hget
  cases hlookup : s.entities.lookup name with
  | none => exact .of_pure rfl rfl
  | some r =>
      dsimp only
      refine leads_enter fun level t hlevel ht hactive => ?_
      have hinside (text : Text) (u : State σ) (hu : u.active = t.active) :
          Leads (Returns Eq) s.active
            ((call (.start text) >>= fun expanded => perform leave >>= fun _ =>
              perform (check (c.limits.checkExpansionSize (Text.size expanded))) >>= fun _ =>
                pure (some expanded)) u)
            ((expand c fail inLiterals level text >>= fun expanded => leave >>= fun _ =>
              pure (some expanded)) u) := by
        have hlevelu : levelAt c u = level := by rw [← ht, levelAt, hu, levelAt]
        refine .seq (hcall level text u hlevel hlevelu) fun a b v hab hv => ?_
        obtain ⟨rfl, hsize⟩ := hab
        refine leads_leave (hv.trans (hu.trans hactive)) fun w hw => ?_
        rw [hsize]
        exact .of_pure rfl hw
      cases r with
      | internal value => exact hinside value t rfl
      | external id base =>
          dsimp only
          rw [perform_bind_apply, declaredText, bind_apply, bind_apply]
          cases hload : load c base id t with
          | ok r u => exact hinside r.text u (by rw [(load_eq_ok hload).2])
          | error error u => exact .error error u

/-- From what is left of a text the expansion is the one of a scan, if the entities in it are
replaced as there and the rest behind a passage is expanded as there. -/
theorem leads_expandStep {call : Expanding → Attempt σ Text}
    (hreplace : ∀ name, Leads (Returns Eq) s.active (replaceAt c fail call name s)
      (expandEntity c fail (below (expand c fail inLiterals) level) name s))
    (h : rest <:+ text) (hquote : ∀ q ∈ quote, Lexer.isQuote q = true) (out : Buffer)
    (hcall : ∀ left quote' out' (t : State σ), left <:+ text → left.length < rest.length →
      (∀ q ∈ quote', Lexer.isQuote q = true) → t.active = s.active →
      Leads (Returns (IsExpansion c)) t.active (call ⟨text, offset text left, quote', out'⟩ t)
        (expandRest c fail inLiterals level left quote' out' t)) :
    Leads (Returns (IsExpansion c)) s.active
      (expandStep c fail inLiterals call ⟨text, offset text rest, quote, out⟩ s)
      (expandRest c fail inLiterals level rest quote out s) := by
  obtain ⟨passage, hpassage, hmeans⟩ := passageAt_offset h hquote inLiterals
  rw [expandStep, hpassage, slice_some_bind, expandRest]
  cases hmeans with
  | textEnd hrest =>
      rw [hrest, piecesFrom, List.reverse_nil, List.foldlM_nil, pure_bind]
      refine .perform_seq fun _ t hcheck => ?_
      obtain rfl := check_eq_ok hcheck
      exact .of_pure ⟨rfl, Buffer.bytes_eq_size out ▸ checked_of_check hcheck⟩ rfl
  | char hleft hlength hquote' hpieces =>
      rw [hpieces, List.foldlM_cons]
      exact hcall _ _ _ s hleft hlength hquote' rfl
  | @reference name left hrest hpieces =>
      subst hrest
      have hleft : left <:+ text := (List.suffix_append _ _).trans h
      have hlength : left.length < (writeReference name ++ left).length := by
        rw [List.length_append, writeReference]
        simp only [List.length_append, List.length_cons, List.length_nil]
        omega
      rw [hpieces, List.foldlM_cons, expandPiece, bind_assoc, bind_assoc]
      refine .seq (hreplace name) fun a b t hab ht => ?_
      subst hab
      rw [← ht]
      cases a with
      | none =>
          dsimp only
          rw [insertAt_none h, slice_some_bind]
          exact hcall _ _ _ t hleft hlength hquote ht
      | some replacement =>
          dsimp only
          rw [insertAt, slice_some_bind]
          cases quote <;> exact hcall _ _ _ t hleft hlength hquote ht

theorem precedes_of_length (h : rest <:+ text) (hleft : left <:+ text)
    (hlength : left.length < rest.length) {n m : Nat} (hlevel : n = m) :
    Precedes (n, Text.size text - offset text left)
      (m, Text.size text - offset text rest) := by
  have hlt :=
    Text.offset_lt h (List.suffix_of_suffix_length_le hleft h (Nat.le_of_lt hlength)) hlength
  have hle := Text.offset_le text left
  refine .inr ⟨hlevel, ?_⟩
  dsimp only
  omega

/-- Expanding by offsets comes to what it comes to in a scan, at the level that is left; every
call is smaller. -/
theorem leads_expandAt_offset (h : rest <:+ text)
    (hquote : ∀ q ∈ quote, Lexer.isQuote q = true) (out : Buffer) (hs : levelAt c s = level) :
    Leads (Returns (IsExpansion c)) s.active
      (expandAt c fail inLiterals ⟨text, offset text rest, quote, out⟩ s)
      (expandRest c fail inLiterals level rest quote out s) := by
  induction level using Nat.strong_induction_on generalizing text rest quote out s with
  | _ level ihLevel =>
      induction hn : rest.length using Nat.strong_induction_on
        generalizing rest quote out s with
      | _ n ihLength =>
          have hnone : ∀ q ∈ (none : Option Char), Lexer.isQuote q = true := fun q hq => by
            cases hq
          rw [expandAt, descend_apply]
          refine leads_expandStep (fun name => ?_) h hquote out
            fun left quote' out' t hleft hlength hquote' ht => ?_
          · rw [← hs]
            refine leads_replaceAt (fun below inside t hbelow ht => ?_) name
            -- inside of an entity there is a level less
            have hless : Precedes (Expanding.measure c (.start inside) t)
                (Expanding.measure c ⟨text, offset text rest, quote, out⟩ s) :=
              .inl (by simp only [Expanding.measure]; omega)
            rw [onlyBefore_of_precedes hless, expand_eq_expandRest]
            have hinside := ihLevel below (by omega) (List.suffix_refl inside) hnone .empty ht
            rwa [Text.offset_self] at hinside
          · have hlevel : levelAt c t = levelAt c s := by rw [levelAt, ht, levelAt]
            rw [onlyBefore_of_precedes (precedes_of_length h hleft hlength hlevel)]
            exact ihLength left.length (hn ▸ hlength) hleft hquote' out' (hlevel.trans hs) rfl

theorem leads_expandAt (c : Setting σ) (fail : Fault → Error) (inLiterals : Bool)
    (text : Text) (s : State σ) :
    Leads (Returns (IsExpansion c)) s.active (expandAt c fail inLiterals (.start text) s)
      (expand c fail inLiterals (levelAt c s) text s) := by
  have hnone : ∀ q ∈ (none : Option Char), Lexer.isQuote q = true := fun q hq => by cases hq
  have hstart : Leads (Returns (IsExpansion c)) s.active
      (expandAt c fail inLiterals ⟨text, offset text text, none, .empty⟩ s)
      (expandRest c fail inLiterals (levelAt c s) text none .empty s) :=
    leads_expandAt_offset (List.suffix_refl text) hnone .empty rfl
  rwa [Text.offset_self, ← expand_eq_expandRest] at hstart

theorem expandAt_start (c : Setting σ) (fail : Fault → Error) (inLiterals : Bool)
    (text : Text) (s : State σ) :
    expandAt c fail inLiterals (.start text) s ≠ none ∧
      expandAt c fail inLiterals (.start text) s =
        expandStep c fail inLiterals (expandAt c fail inLiterals) (.start text) s := by
  have hne := (leads_expandAt c fail inLiterals text s).ne_none
  exact ⟨hne, descend_eq_of_ne_none (fun _ _ h => extends_expandStep h c fail inLiterals) hne⟩

theorem leads_replacementAt (c : Setting σ) (fail : Fault → Error) (inLiterals : Bool)
    (name : Text) (s : State σ) :
    Leads (Returns Eq) s.active (replacementAt c fail inLiterals name s)
      (expandEntity c fail (below (expand c fail inLiterals) (levelAt c s)) name s) :=
  leads_replaceAt (fun _ text t _ ht => ht ▸ leads_expandAt c fail inLiterals text t) name

end Doctype.Markup
