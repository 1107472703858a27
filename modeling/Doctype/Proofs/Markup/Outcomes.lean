import Doctype.Proofs.Markup.Scanning
import Doctype.Proofs.Markup.Unfolding

/-!
What runs that expand references come to. Unless a limit is reached, a run comes to the outcome
that the text has apart from any run, and limits that are wide enough are not reached
(`Unfolds.exists_expandsTo`). So the text has only this outcome, and the run tells which one it
is (`expand_eq_unfolding`).
-/

namespace Doctype.Markup

variable {σ : Type} {resolver : Resolver} {entities : List (Text × Replacement)}
  {active : List Text}
  {asked asked' : List Request} {n t u v w : Text} {r : Replacement}

/-! ### Runs -/

section Run

variable {α β : Type} {c : Setting σ} {fail : Fault → Error} {level bound : Nat} {s : State σ}
  {yields : α → Text → Prop} {o o' : Outcome}

def expandBelow (c : Setting σ) (fail : Fault → Error) : Nat → Option (Text → Scan σ Text)
  | 0 => none
  | level + 1 => some (expand c fail false level)

theorem expand_eq_expandPieces (level : Nat) (t : Text) :
    expand c fail false level t =
      expandPieces c false (expandEntity c fail (expandBelow c fail level)) t := by
  cases level <;> rfl

/-- `ComesTo c fail level bound s yields o result`: a run from `s` has come to the outcome `o`,
or a limit is reached, which `bound` is beyond. -/
inductive ComesTo (c : Setting σ) (fail : Fault → Error) (level bound : Nat) (s : State σ)
    (yields : α → Text → Prop) : Outcome → EStateM.Result Error (State σ) α → Prop
  | text {t : Text} {a : α} {u : State σ} :
      yields a t → s.Keeps u → u.expansions ≤ s.expansions + bound →
      ComesTo c fail level bound s yields (.text t u.asked) (.ok a u)
  | recursion {name : Text} {active : List Text} {s' : State σ} :
      ComesTo c fail level bound s yields (.recursion name active)
        (.error (fail (.recursiveEntity name active)) s')
  | limit {o : Outcome} {excess : Limits.Excess} {s' : State σ} :
      level < bound ∨ c.limits.entityExpansions < s.expansions + bound ∨
      c.limits.entityExpansionSize < bound →
        ComesTo c fail level bound s yields o (.error (.limitExceeded excess) s')

/-- Two runs one after the other; the second one is never begun where the first one meets a
recursion. -/
theorem ComesTo.bind (bound' : Nat) {x : Scan σ α} {f : α → Scan σ β}
    {yields' : β → Text → Prop} (hx : ComesTo c fail level bound s yields o (x s))
    (hf : ∀ a t s', o = .text t s'.asked → yields a t → s.Keeps s' →
      ComesTo c fail level bound' s' yields' o' (f a s'))
    (hrecursion : ∀ name active, o = .recursion name active → o' = .recursion name active) :
    ComesTo c fail level (bound + bound') s yields' o' ((x >>= f) s) := by
  rw [bind_apply]
  cases hrun : x s with
  | ok a s₁ =>
      rw [hrun] at hx
      cases hx with
      | text ha hkeeps hexpansions =>
          have hrest := hf _ _ _ rfl ha hkeeps
          dsimp only
          cases hlast : f a s₁ with
          | ok b s₂ =>
              rw [hlast] at hrest
              cases hrest with
              | text hb hkeeps' hexpansions' =>
                  exact .text hb (hkeeps.trans hkeeps') (by omega)
          | error e s₂ =>
              rw [hlast] at hrest
              cases hrest with
              | recursion => exact .recursion
              | limit hlimit => exact .limit (by omega)
  | error e s₁ =>
      rw [hrun] at hx
      cases hx with
      | recursion =>
          rw [hrecursion _ _ rfl]
          exact .recursion
      | limit hlimit => exact .limit (by omega)

theorem checkExpansions_cases (limits : Limits) (count : Nat) :
    limits.checkExpansions count = .ok () ∨
      ∃ excess, limits.checkExpansions count = .error excess ∧
        limits.entityExpansions < count := by
  unfold Limits.checkExpansions Limits.atMost
  split
  · exact .inl rfl
  · exact .inr ⟨_, rfl, by omega⟩

/-- An entity that is not active is entered, and its replacement text is expanded one level
deeper, unless a limit is reached. -/
theorem expandEntity_cases (fail : Fault → Error) (level : Nat)
    (hname : s.entities.lookup n = some r) (htext : r.text? c.resolver s.asked = some u)
    (hactive : n ∉ s.active) :
    (∃ excess s', expandEntity c fail (expandBelow c fail level) n s =
      .error (.limitExceeded excess) s' ∧
      (level = 0 ∨ c.limits.entityExpansions < s.expansions + 1)) ∨
    ∃ inner, level = inner + 1 ∧ expandEntity c fail (expandBelow c fail level) n s =
      (do let v ← expand c fail false inner u; leave; return some v : Scan σ (Option Text))
        { s with active := s.active ++ [n], expansions := s.expansions + 1, asked :=
  s.asked ++ r.requests } := by
  have hcontains : s.active.contains n = false := by simpa using hactive
  unfold expandEntity
  rw [get_bind, hname]
  dsimp only
  rw [bind_apply, enter_apply]
  simp only [hcontains, Bool.false_eq_true, if_false]
  obtain hcheck | ⟨excess, hcheck, hcount⟩ := checkExpansions_cases c.limits (s.expansions + 1)
  · rw [hcheck]
    cases level with
    | zero => exact .inl ⟨_, _, rfl, .inl rfl⟩
    | succ inner =>
        right
        cases r with
        | internal text =>
            cases htext
            refine ⟨inner, rfl, ?_⟩
            rw [Replacement.requests, List.append_nil]
            rfl
        | external id base =>
            obtain ⟨found, hfound, rfl⟩ :
                ∃ found, c.resolver.answer s.asked ⟨base, id⟩ = .ok found ∧
                found.text = u := by
              cases hanswer : c.resolver.answer s.asked ⟨base, id⟩ <;>
                simp_all [Replacement.text?, Except.toOption]
            refine ⟨inner, rfl, ?_⟩
            dsimp only [expandBelow]
            rw [bind_apply, load_eq, hfound]
            rfl
  · rw [hcheck]
    exact .inl ⟨_, _, rfl, .inr hcount⟩

theorem ComesTo.after {out : Text} {result : EStateM.Result Error (State σ) Buffer}
    (h : ComesTo c fail level bound s (fun b t => b.toText = out ++ w ++ t) o result) :
    ComesTo c fail level bound s (fun b t => b.toText = out ++ t) (o.after w) result := by
  cases h with
  | text hb hkeeps hexpansions =>
      exact .text (by rw [hb, List.append_assoc]) hkeeps hexpansions
  | recursion => exact .recursion
  | limit hlimit => exact .limit hlimit

end Run

variable {c : Setting σ} {fail : Fault → Error} {ps : List Piece} {o o' : Outcome}
  {bound bound' : Nat}

/-- Every run that expands the pieces, with what it makes of them behind what is written
already. -/
def FoldsTo (σ : Type) (resolver : Resolver) (entities : List (Text × Replacement))
    (active : List Text) (asked : List Request) (ps : List Piece) (o : Outcome) (bound : Nat) :
    Prop :=
  ∀ (c : Setting σ) (fail : Fault → Error) (level : Nat) (s : State σ) (out : Buffer),
    c.resolver = resolver →
    s.entities = entities → s.active = active → s.asked = asked →
      ComesTo c fail level bound s (fun b t => b.toText = out.toText ++ t) o
        (ps.foldlM (expandPiece (expandEntity c fail (expandBelow c fail level))) out s)

def ExpandsTo (σ : Type) (resolver : Resolver) (entities : List (Text × Replacement))
    (active : List Text) (asked : List Request) (t : Text) (o : Outcome) (bound : Nat) :
    Prop :=
  ∀ (c : Setting σ) (fail : Fault → Error) (level : Nat) (s : State σ), c.resolver = resolver →
    s.entities = entities → s.active = active → s.asked = asked →
      ComesTo c fail level bound s Eq o (expand c fail false level t s)

def Outcome.size : Outcome → Nat
  | text t _ => Text.size t
  | recursion _ _ => 0

theorem FoldsTo.expandsTo
    (h : FoldsTo σ resolver entities active asked (pieces false t) o bound) :
    ExpandsTo σ resolver entities active asked t o (bound + o.size) := by
  intro c fail level s hresolver hentities hactive hasked
  rw [expand_eq_expandPieces, expandPieces]
  refine ComesTo.bind o.size (h c fail level s .empty hresolver hentities hactive hasked) ?_
    fun _ _ h => h
  rintro b v s' rfl hb -
  rw [Buffer.toText_empty, List.nil_append] at hb
  rw [bind_apply]
  by_cases hsize : b.bytes ≤ c.limits.entityExpansionSize
  · have hcheck : c.limits.checkExpansionSize b.bytes = .ok () := by
      simp [Limits.checkExpansionSize, Limits.atMost, hsize]
    rw [hcheck]
    exact .text hb (.refl s') (by omega)
  · have hcheck : c.limits.checkExpansionSize b.bytes =
        .error (.expansionSize b.bytes c.limits.entityExpansionSize) := by
      simp [Limits.checkExpansionSize, Limits.atMost, hsize]
    rw [hcheck]
    refine .limit (.inr (.inr ?_))
    rw [Outcome.size, ← hb, ← Buffer.bytes_eq_size]
    omega

namespace FoldsTo

theorem nil : FoldsTo σ resolver entities active asked [] (.text [] asked) 0 :=
  fun _ _ _ s _ _ _ _ hasked => hasked ▸ .text (List.append_nil _).symm (.refl s) (by omega)

theorem chars (h : FoldsTo σ resolver entities active asked ps o bound) (w : Text) :
    FoldsTo σ resolver entities active asked (w.map .char ++ ps) (o.after w) bound := by
  intro c fail level s out hresolver hentities hactive hasked
  rw [List.foldlM_append, bind_apply, foldlM_char]
  have hrest := h c fail level s (out.append w) hresolver hentities hactive hasked
  rw [Buffer.toText_append] at hrest
  exact hrest.after

theorem undeclared (hname : entities.lookup n = none)
    (h : FoldsTo σ resolver entities active asked ps o bound) :
    FoldsTo σ resolver entities active asked (.reference n false :: ps)
      (o.after (writeReference n)) bound := by
  intro c fail level s out hresolver hentities hactive hasked
  have hnone : expandEntity c fail (expandBelow c fail level) n s = .ok none s := by
    unfold expandEntity
    rw [get_bind, hentities, hname]
    rfl
  rw [List.foldlM_cons, bind_apply, expandPiece, bind_apply, hnone]
  have hrest :=
    h c fail level s (out.append (writeReference n)) hresolver hentities hactive hasked
  rw [Buffer.toText_append] at hrest
  exact hrest.after

theorem recursive (hname : entities.lookup n = some r) (hmem : n ∈ active) :
    FoldsTo σ resolver entities active asked (.reference n false :: ps)
      (.recursion n active) 0 := by
  intro c fail level s out hresolver hentities hactive hasked
  have hcontains : s.active.contains n = true := by simpa [hactive] using hmem
  have hfails : expandEntity c fail (expandBelow c fail level) n s =
      .error (fail (.recursiveEntity n active)) s := by
    unfold expandEntity
    rw [get_bind, hentities, hname]
    dsimp only
    rw [bind_apply, enter_apply, if_pos hcontains, hactive]
  rw [List.foldlM_cons, bind_apply, expandPiece, bind_apply, hfails]
  exact .recursion

end FoldsTo

/-- A reference comes to what its replacement text comes to, with one more level and one more
expansion. -/
theorem ExpandsTo.expandEntity
    (h : ExpandsTo σ resolver entities (active ++ [n]) (asked ++ r.requests) u o bound)
    (hname : entities.lookup n = some r) (htext : r.text? resolver asked = some u)
    (hfree : n ∉ active) (c : Setting σ) (fail : Fault → Error) (level : Nat) (s : State σ)
    (hresolver : c.resolver = resolver) (hentities : s.entities = entities)
    (hactive : s.active = active) (hasked : s.asked = asked) :
    ComesTo c fail level (bound + 1) s (fun a v => a = some v) o
      (expandEntity c fail (expandBelow c fail level) n s) := by
  subst hresolver hentities hactive hasked
  obtain ⟨excess, s', hfails, hlimit⟩ | ⟨inner, rfl, heq⟩ :=
    expandEntity_cases fail level hname htext hfree
  · rw [hfails]
    exact .limit (by omega)
  · rw [heq, bind_apply]
    have hrun := h c fail inner
      { s with active := s.active ++ [n], expansions := s.expansions + 1, asked :=
        s.asked ++ r.requests }
      rfl rfl rfl rfl
    cases hresult : expand c fail false inner u
        { s with active := s.active ++ [n], expansions := s.expansions + 1, asked :=
          s.asked ++ r.requests } with
    | ok v s₂ =>
        rw [hresult] at hrun
        cases hrun with
        | text hv hkeeps hexpansions =>
            have hleft : s₂.active.dropLast = s.active := by
              rw [hkeeps.active, List.dropLast_concat]
            dsimp only at hexpansions
            exact .text (u := { s₂ with active := s₂.active.dropLast }) (congrArg some hv)
              ⟨hkeeps.handled, hkeeps.entities, hleft⟩ (by dsimp only; omega)
    | error e s₂ =>
        rw [hresult] at hrun
        cases hrun with
        | recursion => exact .recursion
        | limit hlimit =>
            dsimp only at hlimit
            exact .limit (by omega)

namespace FoldsTo

theorem inner {m : Text} {active' : List Text}
    (h : ExpandsTo σ resolver entities (active ++ [n]) (asked ++ r.requests) u
      (.recursion m active') bound)
    (hname : entities.lookup n = some r) (htext : r.text? resolver asked = some u)
    (hfree : n ∉ active) :
    FoldsTo σ resolver entities active asked (.reference n false :: ps)
      (.recursion m active') (bound + 1) := by
  intro c fail level s out hresolver hentities hactive hasked
  have hentity :=
    h.expandEntity hname htext hfree c fail level s hresolver hentities hactive hasked
  rw [List.foldlM_cons, expandPiece, bind_assoc]
  exact ComesTo.bind 0 hentity (fun _ _ _ h => nomatch h) fun _ _ h => h

theorem replaced
    (h : ExpandsTo σ resolver entities (active ++ [n]) (asked ++ r.requests) u
      (.text v asked') bound)
    (hname : entities.lookup n = some r) (htext : r.text? resolver asked = some u)
    (hfree : n ∉ active) (hrest : FoldsTo σ resolver entities active asked' ps o bound') :
    FoldsTo σ resolver entities active asked (.reference n false :: ps)
      (o.after (' ' :: v ++ [' ']))
      (bound + 1 + bound') := by
  intro c fail level s out hresolver hentities hactive hasked
  have hentity :=
    h.expandEntity hname htext hfree c fail level s hresolver hentities hactive hasked
  rw [List.foldlM_cons, expandPiece, bind_assoc]
  refine ComesTo.bind bound' hentity ?_ nofun
  rintro a _ s' ⟨⟩ rfl hkeeps
  have hpadded := hrest c fail level s' (((out.push ' ').append v).push ' ') hresolver
    (hkeeps.entities.trans hentities) (hkeeps.active.trans hactive) rfl
  have htext : (((out.push ' ').append v).push ' ').toText =
    out.toText ++ (' ' :: v ++ [' ']) := by simp
  rw [htext] at hpadded
  exact hpadded.after

end FoldsTo

/-- A run comes to the outcome of its text, by induction on how the text is expanded. -/
theorem Unfolds.exists_foldsTo (h : Unfolds resolver entities active asked t o) :
    ∃ bound, FoldsTo σ resolver entities active asked (pieces false t) o bound := by
  induction h with
  | nil => exact ⟨0, by simpa [pieces, piecesFrom] using FoldsTo.nil⟩
  | @char _ _ d t _ hpercent hquote _ ih =>
      obtain ⟨bound, hrest⟩ := ih
      have hpieces : pieces false (d :: t) = [d].map .char ++ pieces false t := by
        have hafter : quoteAfter none d = none := by simp [quoteAfter, hquote]
        rw [pieces, pieces_char (by simp [hpercent]), hafter]
        rfl
      exact ⟨bound, hpieces ▸ hrest.chars [d]⟩
  | @percent _ _ t _ hnone _ ih =>
      obtain ⟨bound, hrest⟩ := ih
      have hpieces : pieces false ('%' :: t) = ['%'].map .char ++ pieces false t := by
        rw [pieces, pieces_percent (reference?_eq_none_iff.2 hnone) rfl]
        rfl
      exact ⟨bound, hpieces ▸ hrest.chars ['%']⟩
  | @quoted _ _ q v t _ hq hv _ ih =>
      obtain ⟨bound, hrest⟩ := ih
      have hpieces : pieces false (q :: v ++ q :: t) =
          (q :: v ++ [q]).map .char ++ pieces false t := by
        rw [List.cons_append, pieces_quote hq, pieces_closed hv]
        rfl
      exact ⟨bound, hpieces ▸ hrest.chars (q :: v ++ [q])⟩
  | @unclosed active asked q v hq hv =>
      have hpieces : pieces false (q :: v) = (q :: v).map .char ++ [] := by
        rw [pieces_quote hq, pieces_unclosed hv, List.append_nil]
        rfl
      have hchars : FoldsTo σ resolver entities active asked ((q :: v).map .char ++ [])
          (.text (q :: v ++ []) asked) 0 := FoldsTo.nil.chars (q :: v)
      rw [List.append_nil (q :: v)] at hchars
      exact ⟨0, hpieces ▸ hchars⟩
  | undeclared hn hname _ ih =>
      obtain ⟨bound, hrest⟩ := ih
      exact ⟨bound, pieces_writeReference hn _ ▸ hrest.undeclared hname⟩
  | recursive hn hname hmem =>
      exact ⟨0, pieces_writeReference hn _ ▸ FoldsTo.recursive hname hmem⟩
  | inner hn hname htext hfree _ ih =>
      obtain ⟨bound, hinner⟩ := ih
      exact ⟨_, pieces_writeReference hn _ ▸ FoldsTo.inner hinner.expandsTo hname htext hfree⟩
  | replaced hn hname htext hfree _ _ ihinner ih =>
      obtain ⟨bound, hinner⟩ := ihinner
      obtain ⟨bound', hrest⟩ := ih
      exact ⟨_, pieces_writeReference hn _ ▸ FoldsTo.replaced hinner.expandsTo hname htext
        hfree hrest⟩

theorem Unfolds.exists_expandsTo (h : Unfolds resolver entities active asked t o) :
    ∃ bound, ExpandsTo σ resolver entities active asked t o bound := by
  obtain ⟨bound, hfolds⟩ := h.exists_foldsTo
  exact ⟨_, hfolds.expandsTo⟩

/-! ### Where no limit is reached -/

section Unlimited

variable {site : Site} {rest : Text} {level : Nat} {s : State σ}

theorem ComesTo.ne_limitExceeded {result : EStateM.Result Error (State σ) Text}
    (h : ComesTo c (site.error rest) level bound s Eq o result) (hlevel : bound ≤ level)
    (hcount : s.expansions + bound ≤ c.limits.entityExpansions)
    (hsize : bound ≤ c.limits.entityExpansionSize) (excess : Limits.Excess) (s' : State σ) :
    result ≠ .error (.limitExceeded excess) s' := by
  rintro rfl
  cases h with
  | limit hlimit => omega

/-- A run that has come to an outcome without reaching a limit tells which one. -/
theorem ComesTo.iff {result : EStateM.Result Error (State σ) Text}
    (h : ComesTo c (site.error rest) level bound s Eq o result)
    (hlimits : ∀ excess s', result ≠ .error (.limitExceeded excess) s') :
    (∀ name active, (∃ s',
      result = .error (site.error rest (.recursiveEntity name active)) s') ↔
        o = .recursion name active) ∧
      (∀ out asked', (∃ s', result = .ok out s' ∧ s'.asked = asked') ↔ o = .text out asked') ∧
      ∀ out s', result = .ok out s' → s.Keeps s' := by
  cases h with
  | text ht hkeeps =>
      subst ht
      refine ⟨fun _ _ => by simp, fun out asked' => by simp, fun out s' heq => ?_⟩
      cases heq
      exact hkeeps
  | recursion =>
      exact ⟨fun name active => by simp [Site.error], fun out asked' => by simp,
        fun _ _ heq => nomatch heq⟩
  | limit => exact absurd rfl (hlimits _ _)

/-- A text has one outcome at most: both are what comes of the same run without limits. -/
theorem Unfolds.unique (s : State σ) (c : Setting σ)
    (h : Unfolds resolver entities active asked t o)
    (h' : Unfolds resolver entities active asked t o') : o = o' := by
  obtain ⟨bound, hruns⟩ := h.exists_expandsTo (σ := σ)
  obtain ⟨bound', hruns'⟩ := h'.exists_expandsTo (σ := σ)
  let large := s.expansions + bound + bound'
  let wide : Setting σ := ⟨c.handler, resolver, ⟨0, large, large, 0, 0⟩⟩
  let start : State σ := { s with entities, active, asked }
  have hrun := hruns wide (Site.error ⟨[], none, 0⟩ []) large start rfl rfl rfl rfl
  have hrun' := hruns' wide (Site.error ⟨[], none, 0⟩ []) large start rfl rfl rfl rfl
  have hlimits :=
    hrun.ne_limitExceeded (by omega) (by change s.expansions + bound ≤ large; omega)
    (by change bound ≤ large; omega)
  obtain ⟨hrecursion, htext, -⟩ := hrun.iff hlimits
  obtain ⟨hrecursion', htext', -⟩ := hrun'.iff hlimits
  cases o with
  | text out asked' => exact ((htext' out asked').1 ((htext out asked').2 rfl)).symm
  | recursion name active =>
      exact ((hrecursion' name active).1 ((hrecursion name active).2 rfl)).symm

/-- Where all replacement texts can be found and no limit is reached, the body of a declaration
other than that of an entity comes to its only outcome: to the recursion that going through its
references from left to right meets, or else to the text with these references expanded, and to
the requests that this takes. The entities that are being expanded are the same afterwards.
Limits that are not reached exist for every body. -/
theorem expand_eq_unfolding {kind : DeclarationKind} (hkind : kind ≠ .entity)
    (hanswers : ∀ n r, s.entities.lookup n = some r → ∀ asked, ∃ u,
      r.text? c.resolver asked = some u)
    (hlimits : ∀ excess s', expand c (site.error rest) (kind = .entity) level t s ≠
      .error (.limitExceeded excess) s') :
    (∃! o, Unfolds c.resolver s.entities s.active s.asked t o) ∧
      (∀ name active, (∃ s', expand c (site.error rest) (kind = .entity) level t s =
          .error (site.error rest (.recursiveEntity name active)) s') ↔
        Unfolds c.resolver s.entities s.active s.asked t (.recursion name active)) ∧
      (∀ out asked', (∃ s', expand c (site.error rest) (kind = .entity) level t s =
        .ok out s' ∧
          s'.asked = asked') ↔
        Unfolds c.resolver s.entities s.active s.asked t (.text out asked')) ∧
      (∀ out s', expand c (site.error rest) (kind = .entity) level t s = .ok out s' →
        s'.active = s.active ∧
        s'.entities = s.entities ∧ s'.handled = s.handled) ∧
      ∃ bound, ∀ (limits : Limits) (level' : Nat), bound ≤ level' →
        s.expansions + bound ≤ limits.entityExpansions →
        bound ≤ limits.entityExpansionSize → ∀ excess s',
          expand ⟨c.handler, c.resolver, limits⟩ (site.error rest) (kind = .entity)
            level' t s ≠
            .error (.limitExceeded excess) s' := by
  obtain ⟨o, ho⟩ := exists_unfolds hanswers s.active s.asked t
  have honly (o' : Outcome) : o = o' ↔ Unfolds c.resolver s.entities s.active s.asked t o' :=
    ⟨fun heq => heq ▸ ho, ho.unique s c⟩
  obtain ⟨bound, hruns⟩ := ho.exists_expandsTo (σ := σ)
  have hliterals : decide (kind = .entity) = false := by simp [hkind]
  simp only [hliterals] at hlimits ⊢
  obtain ⟨hrecursion, htext, hkeeps⟩ :=
    (hruns c (site.error rest) level s rfl rfl rfl rfl).iff hlimits
  refine ⟨⟨o, ho, fun o' ho' => ((honly o').2 ho').symm⟩, ?_, ?_, ?_, bound, ?_⟩
  · intro name active
    rw [hrecursion, honly]
  · intro out asked'
    rw [htext, honly]
  · intro out s' hrun
    obtain ⟨hhandled, hentities, hactive⟩ := hkeeps out s' hrun
    exact ⟨hactive, hentities, hhandled⟩
  · intro limits level' hlevel hcount hsize
    exact (hruns ⟨c.handler, c.resolver, limits⟩ (site.error rest) level' s rfl rfl rfl
      rfl).ne_limitExceeded hlevel hcount hsize

end Unlimited

/-- A body with an undeclared entity, a quoted reference and a percent sign, and one that leads
back to `loop`. -/
theorem expand_eq_unfolding_nested :
    let entities : List (Text × Replacement) :=
      [(['a'], .internal "%b;|'%b;'"), (['b'], .internal "x"),
        ("loop", .internal "'%loop;'%b;%loop;")]
    Unfolds (.ofCatalog []) entities [] [] "e (%a;,%none;) '%a;' %"
        (.text "e (  x |'%b;' ,%none;) '%a;' %" []) ∧
      Unfolds (.ofCatalog []) entities [] [] "e %b;%loop;" (.recursion "loop" ["loop"]) := by
  intro entities
  let c : Setting Recording := ⟨Recording.handler, .ofCatalog [], .standard⟩
  let site : Site := ⟨[], none, 0⟩
  let s : State Recording := ⟨.empty, entities, [], 0, []⟩
  have hanswers (n : Text) (r : Replacement) (hname : s.entities.lookup n = some r)
      (asked : List Request) : ∃ u, r.text? c.resolver asked = some u := by
    obtain ⟨before, after, heq, -⟩ := List.lookup_eq_some_iff.1 hname
    have hmem : (n, r) ∈ entities := by
      change entities = _ at heq
      simp [heq]
    simp only [entities, List.mem_cons, List.not_mem_nil, Prod.mk.injEq, or_false] at hmem
    rcases hmem with ⟨-, rfl⟩ | ⟨-, rfl⟩ | ⟨-, rfl⟩ <;> exact ⟨_, rfl⟩
  have hkind : DeclarationKind.element ≠ .entity := by decide
  constructor
  · have hout : seen (fun out s => (out, s.asked))
        (expand c (site.error []) false 2 "e (%a;,%none;) '%a;' %" s) =
        .ok ("e (  x |'%b;' ,%none;) '%a;' %".toList, []) := by
      decide +kernel
    obtain ⟨out, s', hrun, hview⟩ := exists_of_seen_eq_ok hout
    obtain ⟨rfl, hasked⟩ := Prod.mk.inj hview
    obtain ⟨-, -, htext, -⟩ := expand_eq_unfolding (c := c) hkind hanswers fun _ _ h => by
      cases hrun.symm.trans h
    exact (htext _ _).1 ⟨s', hrun, hasked⟩
  · have herror : seen (fun out _ => out) (expand c (site.error []) false 2 "e %b;%loop;" s) =
        .error (site.error [] (.recursiveEntity "loop" ["loop"])) := by
      decide +kernel
    obtain ⟨s', hrun⟩ := exists_of_seen_eq_error herror
    obtain ⟨-, hrecursion, -⟩ := expand_eq_unfolding (c := c) hkind hanswers fun _ _ h => by
      cases hrun.symm.trans h
    exact (hrecursion _ _).1 ⟨s', hrun⟩

end Doctype.Markup
