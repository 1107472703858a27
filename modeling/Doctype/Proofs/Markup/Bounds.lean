import Doctype.Proofs.Markup.Expansion
import Doctype.Proofs.Markup.Path

/-!
What a scan can cost. All that no entity pays for comes from the text of the source and from
its external subset. Every construct gets a rule about what it adds (`Plan.Costs`), and the
rules compose, so that the bounds on the number, the size and the depth of expansions bound the
whole run (`Source.run_bounded`).
-/

namespace Doctype

universe u

variable {σ α β : Type}

namespace Markup

/-- The text that an external identifier stands for behind some requests, if there is an
identifier and the resolver finds its text. -/
def externalText (resolver : Resolver) (asked : List Request) (base : Option Location) :
    Option ExternalId → Text
  | none => []
  | some id =>
    match resolver.answer asked ⟨base, id⟩ with
    | .ok r => r.text
    | .error _ => []

/-! ### Rules -/

namespace Plan

/-- `CostsFrom c level s events loads p result`: from the state, a run of the plan pays for
what it does, aside from a number of events and external texts. If it succeeds, its state fits
the level, and its result is as said. -/
def CostsFrom (c : Setting σ) (level : Nat) (s : State σ) (events loads : Nat) (p : Plan α)
    (result : α → Prop) : Prop :=
  Pays c.limits events loads (p.trace c s) ∧
    ∀ a t, p.run c s = .ok a t → t.Fits c.limits level ∧ result a

def Costs (c : Setting σ) (level events loads : Nat) (p : Plan α) (result : α → Prop) : Prop :=
  ∀ s, s.Fits c.limits level → CostsFrom c level s events loads p result

section CostsFrom

variable {c : Setting σ} {level events loads events' loads' : Nat} {s : State σ} {p : Plan α}
  {result : α → Prop}

theorem CostsFrom.mono (h : CostsFrom c level s events loads p result)
    (hevents : events ≤ events') (hloads : loads ≤ loads') :
    CostsFrom c level s events' loads' p result :=
  ⟨h.1.mono hevents hloads, h.2⟩

/-- What comes second is paid for from where the first part ends. -/
theorem CostsFrom.bind {f : α → Plan β} {result' : β → Prop}
    (hp : CostsFrom c level s events loads p result)
    (hf : ∀ a t, p.run c s = .ok a t → t.Fits c.limits level → result a →
      CostsFrom c level t events' loads' (f a) result') :
    CostsFrom c level s (events + events') (loads + loads') (p >>= f) result' := by
  obtain ⟨hpays, hok⟩ := hp
  rw [CostsFrom, trace_bind, run_bind, bind_apply]
  cases hrun : p.run c s with
  | error error t =>
      refine ⟨?_, fun _ _ h => by cases h⟩
      simpa using hpays.mono (Nat.le_add_right _ events') (Nat.le_add_right _ loads')
  | ok a t =>
      obtain ⟨ht, ha⟩ := hok a t hrun
      obtain ⟨hpays', hok'⟩ := hf a t hrun ht ha
      exact ⟨hpays.append hpays', hok'⟩

theorem CostsFrom.bind_free {f : α → Plan β} {result' : β → Prop}
    (hp : CostsFrom c level s events loads p result)
    (hf : ∀ a, result a → Costs c level 0 0 (f a) result') :
    CostsFrom c level s events loads (p >>= f) result' :=
  hp.bind fun a t _ ht ha => hf a ha t ht

end CostsFrom

namespace Costs

variable {c : Setting σ} {level events loads events' loads' : Nat} {p : Plan α}
  {result : α → Prop}

theorem mono (h : Costs c level events loads p result) (hevents : events ≤ events')
    (hloads : loads ≤ loads') : Costs c level events' loads' p result := by
  intro s hs
  obtain ⟨hpays, hok⟩ := h s hs
  exact ⟨hpays.mono hevents hloads, hok⟩

theorem anyResult (h : Costs c level events loads p result) :
    Costs c level events loads p fun _ => True := by
  intro s hs
  obtain ⟨hpays, hok⟩ := h s hs
  exact ⟨hpays, fun a t hrun => ⟨(hok a t hrun).1, trivial⟩⟩

theorem pure {a : α} (h : result a) : Costs c level 0 0 (pure a) result := by
  refine fun s hs => ⟨.nil, fun b t hrun => ?_⟩
  cases hrun
  exact ⟨hs, h⟩

theorem fail (error : Error) : Costs c level 0 0 (fail error) result :=
  fun _ _ => ⟨.nil, fun _ _ hrun => by cases hrun⟩

theorem bind {f : α → Plan β} {result' : β → Prop} (hp : Costs c level events loads p result)
    (hf : ∀ a, result a → Costs c level events' loads' (f a) result') :
    Costs c level (events + events') (loads + loads') (p >>= f) result' :=
  fun s hs => (hp s hs).bind fun a t _ ht ha => hf a ha t ht

theorem free_bind {f : α → Plan β} {result' : β → Prop} (hp : Costs c level 0 0 p result)
    (hf : ∀ a, result a → Costs c level events loads (f a) result') :
    Costs c level events loads (p >>= f) result' :=
  (hp.bind hf).mono (by omega) (by omega)

theorem bind_free {f : α → Plan β} {result' : β → Prop}
    (hp : Costs c level events loads p result)
    (hf : ∀ a, result a → Costs c level 0 0 (f a) result') :
    Costs c level events loads (p >>= f) result' :=
  fun s hs => (hp s hs).bind_free hf

theorem discard (hp : Costs c level events loads p result) :
    Costs c level events loads (discard p) fun _ => True :=
  hp.bind_free fun _ _ => .pure trivial

/-- A step by what it does if it succeeds; one that enters an entity does not lead back to the
same level. -/
theorem take {x : Step α}
    (hok : ∀ s a t, s.Fits c.limits level → x.run c s = .ok a t →
      t.Fits c.limits level ∧ result a)
    (hsizes : ∀ e ∈ x.event?, e.isDeclaration = true → e.size ≤ c.limits.entityExpansionSize)
    (hevents : x.event?.isSome.toNat ≤ events) (hloads : x.isLoad.toNat ≤ loads) :
    Costs c level events loads (take x) result := by
  intro s hs
  have hmoment {t : State σ} {succeeds : Bool} (ht : t.Bounded c.limits) :
      Pays c.limits events loads [(⟨x, s, t, succeeds⟩ : Moment σ)] :=
    (Pays.single (m := ⟨x, s, t, succeeds⟩) hs.toBounded ht hsizes).mono hevents hloads
  unfold CostsFrom Plan.take trace
  simp only [run, bind_apply]
  cases hrun : x.run c s with
  | error error t =>
      obtain ⟨hactive, hentities⟩ := Step.same_of_error hrun
      exact ⟨hmoment (hs.toBounded.congr hactive hentities), fun _ _ h => by cases h⟩
  | ok a t =>
      obtain ⟨ht, ha⟩ := hok s a t hs hrun
      refine ⟨hmoment ht.toBounded, fun b u h => ?_⟩
      cases h
      exact ⟨ht, ha⟩

/-! ### Steps -/

theorem checkSource (size : Nat) :
    Costs c level 0 0 (Plan.take (.checkSource size)) fun _ => True := by
  refine take (fun s u t hs h => ⟨?_, trivial⟩) (fun _ h => by cases h) (Nat.le_refl 0)
    (Nat.le_refl 0)
  simp only [Step.run] at h
  exact check_eq_ok h ▸ hs

theorem checkExpansion (size : Nat) :
    Costs c level 0 0 (Plan.take (.checkExpansion size)) fun _ =>
      size ≤ c.limits.entityExpansionSize := by
  refine take (fun s u t hs h => ?_) (fun _ h => by cases h) (Nat.le_refl 0) (Nat.le_refl 0)
  simp only [Step.run] at h
  refine ⟨check_eq_ok h ▸ hs, ?_⟩
  cases hcheck : c.limits.checkExpansionSize size with
  | error excess =>
      rw [hcheck] at h
      cases h
  | ok u => exact Limits.atMost_eq_ok hcheck

theorem lookup (name : Text) : Costs c level 0 0 (Plan.take (.lookup name)) fun r =>
    ∀ text, r = some (.internal text) → Text.size text ≤ c.limits.entityExpansionSize := by
  refine take (fun s r t hs h => ?_) (fun _ h => by cases h) (Nat.le_refl 0) (Nat.le_refl 0)
  cases h
  refine ⟨hs, fun text htext => ?_⟩
  obtain ⟨before, after, hentities, -⟩ := List.lookup_eq_some_iff.1 htext
  exact hs.replacements name text (by simp [hentities])

theorem load (base : Option Location) (id : ExternalId) :
    Costs c level 0 1 (Plan.take (.load base id)) fun _ => True := by
  refine take (fun s r t hs h => ?_) (fun _ h => by cases h) (Nat.le_refl 0) (Nat.le_refl 1)
  simp only [Step.run] at h
  obtain ⟨-, rfl⟩ := load_eq_ok h
  exact ⟨hs.congr rfl rfl, trivial⟩

theorem report (base : Option Location) {e : Event}
    (he : e.isDeclaration = true → e.size ≤ c.limits.entityExpansionSize) :
    Costs c level 1 0 (Plan.take (.report base e)) fun _ => True := by
  refine take (fun s u t hs h => ⟨?_, trivial⟩) ?_ (Nat.le_refl 1) (Nat.le_refl 0)
  · simp only [Step.run, bind_apply, report_apply] at h
    cases haccept : c.handler.accept s.handled e with
    | error error =>
        rw [haccept] at h
        cases h
    | ok handled =>
        rw [haccept] at h
        cases h
        exact (hs.congr (t := { s with handled }) rfl rfl).define base he
  · rintro e' ⟨⟩
    exact he

theorem finish : Costs c level 0 0 (Plan.take .finish) fun _ => True := by
  refine take (fun s u t hs h => ⟨?_, trivial⟩) (fun _ h => by cases h) (Nat.le_refl 0)
    (Nat.le_refl 0)
  simp only [Step.run, finish_apply] at h
  split at h <;> cases h
  exact hs.congr rfl rfl

/-! ### Expanding references -/

/-- Leaving an entity in the end leads to the level around it. -/
theorem leave_after {n : Nat} (hn : n < c.limits.entityDepth)
    (hp : Costs c n events loads p result) {s : State σ} (hs : s.Fits c.limits n) :
    let left : Plan α := do
      let a ← p
      Plan.take .leave
      return a
    Pays c.limits events loads (left.trace c s) ∧
      ∀ a t, left.run c s = .ok a t → t.Fits c.limits (n + 1) ∧ result a := by
  intro left
  obtain ⟨hpays, hok⟩ := hp s hs
  simp only [left, trace_bind, run_bind, bind_apply]
  cases hrun : p.run c s with
  | error error t =>
      rw [List.append_nil]
      exact ⟨hpays, fun _ _ h => by cases h⟩
  | ok a t =>
      obtain ⟨ht, ha⟩ := hok a t hrun
      have houter : ({ t with active := t.active.dropLast } : State σ).Fits
          c.limits (n + 1) := by
        have hlevel := ht.level
        refine ⟨⟨ht.nodup.sublist (List.dropLast_sublist _), ?_, ht.replacements⟩, ?_⟩ <;>
        · simp only [List.length_dropLast]
          omega
      have hleave : Pays c.limits 0 0
          [(⟨.leave, t, { t with active := t.active.dropLast }, true⟩ : Moment σ)] :=
        Pays.single (m := ⟨.leave, t, { t with active := t.active.dropLast }, true⟩)
          ht.toBounded houter.toBounded fun _ h => by cases h
      refine ⟨hpays.append hleave, fun b u h => ?_⟩
      cases h
      exact ⟨houter, ha⟩

/-- What can be done inside of an entity is as said at the level below. -/
abbrev Deeper {δ : Type u} (level : Nat) (P : Nat → δ → Prop) (deeper : Option δ) : Prop :=
  ∀ inside ∈ deeper, ∃ n, level = n + 1 ∧ P n inside

theorem deeper_none {δ : Type u} (P : Nat → δ → Prop) : Deeper level P none :=
  fun _ h => by cases h

/-- An entity pays for what is done inside of it. -/
theorem within (fault : Fault → Error) (name : Text) {inside : Option (Plan α)}
    (h : Deeper level (fun n p => Costs c n c.limits.entityExpansionSize 1 p result) inside) :
    Costs c level 0 0 (within fault name inside) result := by
  cases inside with
  | none =>
      have hfails : Costs c level 0 0 (Plan.take (.enterTooDeep fault name)) fun _ => True :=
        take (fun _ a => a.elim) (fun _ h => by cases h) (Nat.le_refl 0) (Nat.le_refl 0)
      have hwithin : Plan.within fault name (none : Option (Plan α)) =
          Plan.take (.enterTooDeep fault name) >>= fun a => a.elim :=
        congrArg (step (.enterTooDeep fault name)) (funext fun a => a.elim)
      exact hwithin ▸ hfails.bind_free fun a => a.elim
  | some p =>
      obtain ⟨n, rfl, hp⟩ := h p rfl
      intro s hs
      have hlevel := hs.level
      have hwithin : Plan.within fault name (some p) = step (.enter fault name) fun _ => do
        let a ← p
        Plan.take .leave
        return a := rfl
      rw [hwithin, CostsFrom]
      simp only [trace, run, bind_apply]
      cases hrun : (Step.enter fault name).run c s with
      | error error t =>
          obtain ⟨hactive, hentities⟩ := Step.same_of_error hrun
          have ht := hs.toBounded.congr hactive hentities
          refine ⟨?_, fun _ _ h => by cases h⟩
          exact Pays.single (m := ⟨.enter fault name, s, t, false⟩) hs.toBounded ht
            fun _ h => by cases h
      | ok u t =>
          obtain ⟨hactive, -, rfl⟩ := Step.enter_eq_ok hrun
          have ht : ({ s with active := s.active ++ [name], expansions := s.expansions + 1 } :
              State σ).Fits c.limits n := by
            refine ⟨⟨?_, ?_, hs.replacements⟩, ?_⟩
            · refine List.nodup_append.2 ⟨hs.nodup, by simp, fun a ha b hb heq => hactive ?_⟩
              rwa [heq, List.mem_singleton.1 hb] at ha
            · simp only [List.length_append, List.length_singleton]
              omega
            · simp only [List.length_append, List.length_singleton]
              omega
          -- inside, the cost is at most what the entrance pays for, and leaving leads back to
          -- this level
          obtain ⟨hpays, hok⟩ := leave_after (by omega) hp ht
          exact ⟨.entered rfl hs.toBounded ht.toBounded hpays, hok⟩

theorem within_map {δ : Type u} {P : Nat → δ → Prop} {deeper : Option δ}
    (fault : Fault → Error) (name : Text) (h : Deeper level P deeper) {f : δ → Plan α}
    (hf : ∀ n d, P n d → Costs c n c.limits.entityExpansionSize 1 (f d) result) :
    Costs c level 0 0 (Plan.within fault name (deeper.map f)) result := by
  refine within fault name fun inside hinside => ?_
  obtain ⟨d, hd, rfl⟩ := Option.map_eq_some_iff.1 hinside
  obtain ⟨n, hn, hd⟩ := h d hd
  exact ⟨n, hn, hf n d hd⟩

theorem replacementText (r : Replacement) :
    Costs c level 0 1 (replacementText r) fun _ => True := by
  cases r with
  | internal text => exact (pure trivial).mono (Nat.le_refl 0) (Nat.zero_le 1)
  | external id base => exact (load base id).bind_free fun r _ => .pure trivial

variable (fault : Fault → Error)

abbrev Expands (c : Setting σ) (level : Nat) : Option (Text → Plan Text) → Prop :=
  Deeper level fun n expand => ∀ t, Costs c n 0 0 (expand t) fun _ => True

theorem expandEntity {deeper : Option (Text → Plan Text)} (hdeeper : Expands c level deeper)
    (name : Text) : Costs c level 0 0 (expandEntity fault deeper name) fun _ => True := by
  refine (lookup name).bind_free fun found _ => ?_
  cases found with
  | none => exact .pure trivial
  | some r =>
      have hinside (n : Nat) (expand : Text → Plan Text)
          (hexpand : ∀ t, Costs c n 0 0 (expand t) fun _ => True) :
          Costs c n 0 1 (Plan.replacementText r >>= expand) fun _ => True :=
        (replacementText r).bind_free fun t _ => hexpand t
      exact (within_map fault name hdeeper fun n expand hexpand =>
        (hinside n expand hexpand).mono (Nat.zero_le _) (Nat.le_refl 1)).bind_free
          fun expanded _ => .pure trivial

theorem expandPieces {replace : Text → Plan (Option Text)}
    (hreplace : ∀ name, Costs c level 0 0 (replace name) fun _ => True) (inLiterals : Bool)
    (t : Text) :
    Costs c level 0 0 (expandPieces inLiterals replace t) fun u =>
      Text.size u ≤ c.limits.entityExpansionSize := by
  have hpiece (out : Buffer) (p : Piece) : Costs c level 0 0 (expandPiece replace out p)
      fun _ => True := by
    cases p with
    | char d => exact .pure trivial
    | reference name isQuoted =>
        refine (hreplace name).bind_free fun o _ => ?_
        cases o <;> exact .pure trivial
  have hfold (ps : List Piece) (out : Buffer) :
      Costs c level 0 0 (ps.foldlM (expandPiece replace) out) fun _ => True := by
    induction ps generalizing out with
    | nil => exact .pure trivial
    | cons p ps ih => exact (hpiece out p).bind_free fun out _ => ih out
  exact (hfold _ _).bind_free fun out _ => (checkExpansion out.bytes).bind_free fun _ hsize =>
    .pure (out.bytes_eq_size ▸ hsize)

theorem expand (inLiterals : Bool) (t : Text) :
    Costs c level 0 0 (expand fault inLiterals level t) fun u =>
      Text.size u ≤ c.limits.entityExpansionSize := by
  induction level generalizing t with
  | zero => exact expandPieces (expandEntity fault (deeper_none _)) inLiterals t
  | succ level ih =>
      refine expandPieces (expandEntity fault fun expand hexpand => ?_) inLiterals t
      cases hexpand
      exact ⟨level, rfl, fun t => (ih t).anyResult⟩

/-! ### Items -/

theorem declare (site : Site) (kind : DeclarationKind) (body : Text) :
    Costs c level 1 0 (declare fault site level kind body) fun _ => True := by
  refine (expand fault (kind = .entity) body).free_bind fun body hbody => ?_
  cases hread : kind.read body with
  | error f => exact (fail _).mono (Nat.zero_le 1) (Nat.le_refl 0)
  | ok e =>
      exact report site.location fun _ => (DeclarationKind.size_le_of_read hread).trans hbody

abbrev Scans (c : Setting σ) (level : Nat) : Option (Site → Text → Plan Unit) → Prop :=
  Deeper level fun n scan => ∀ site t, Costs c n t.length 0 (scan site t) fun _ => True

theorem scanEntity (site : Site) {deeper : Option (Site → Text → Plan Unit)}
    (hdeeper : Scans c level deeper) (name : Text) :
    Costs c level 0 0 (scanEntity fault site deeper name) fun _ => True := by
  refine (lookup name).free_bind fun found hfound => ?_
  cases found with
  | none => exact .pure trivial
  | some r =>
      cases r with
      | internal text =>
          refine within_map fault name hdeeper fun n scan hscan => ?_
          exact (hscan _ text).mono ((Text.length_le_size text).trans (hfound text rfl))
            (Nat.zero_le 1)
      | external id base =>
          refine within_map fault name hdeeper fun n scan hscan => ?_
          have htext (r : Resource) : Costs c n c.limits.entityExpansionSize 0 (do
              Plan.take (.checkExpansion (Text.size r.text))
              scan (.ofResource r) r.text) fun _ => True :=
            (checkExpansion _).free_bind fun _ hsize =>
              (hscan _ r.text).mono ((Text.length_le_size r.text).trans hsize) (Nat.le_refl 0)
          exact ((load base id).bind fun r _ => htext r).mono (Nat.le_of_eq (Nat.zero_add _))
            (Nat.le_refl 1)

theorem sectionKeyword (keyword : SectionKeyword) :
    Costs c level 0 0 (sectionKeyword fault level keyword) fun _ => True := by
  cases keyword with
  | literal keyword => exact .pure trivial
  | reference name =>
      refine (expandEntity fault (fun expand hexpand => ?_) name).bind_free fun o _ => ?_
      · cases level with
        | zero => cases hexpand
        | succ level =>
            cases hexpand
            exact ⟨level, rfl, fun t => (Costs.expand fault false t).anyResult⟩
      · cases o with
        | none => exact .fail _
        | some text => exact .pure trivial

section Texts

variable {deeper : Option (Site → Text → Plan Unit)} (hdeeper : Scans c level deeper)
include hdeeper

theorem scanItem (site : Site) (item : Item) :
    Costs c level 1 0 (scanItem fault site level deeper item) fun _ => True := by
  have hnothing : Costs c level 1 0 (Pure.pure () : Plan Unit) fun _ => True :=
    (pure trivial).mono (Nat.zero_le 1) (Nat.le_refl 0)
  cases item with
  | comment text => exact report none fun h => by cases h
  | instruction target data => exact report none fun h => by cases h
  | declaration kind body => exact declare fault site kind body
  | reference name =>
      exact (scanEntity fault site hdeeper name).mono (Nat.zero_le 1) (Nat.le_refl 0)
  | textDeclaration => exact hnothing
  | sectionStart keyword start => exact hnothing

/-! ### Texts -/

omit fault

/-- An item is at least one character of the text. -/
theorem scanStep (stop : Stop) (site : Site) (opened : Nat) {t : Text}
    {next : Nat → (rest : Text) → rest.length < t.length → Plan Text}
    (hnext : ∀ opened rest h, Costs c level rest.length 0 (next opened rest h) fun _ => True) :
    Costs c level t.length 0 (scanStep level deeper stop site opened t next)
      fun _ => True := by
  have hrest (opened : Nat) (rest : Text) (h : rest.length < t.length) :
      Costs c level t.length 0 (next opened rest h) fun _ => True :=
    (hnext opened rest h).mono (Nat.le_of_lt h) (Nat.le_refl 0)
  have hnothing {p : Plan Text} (h : Costs c level 0 0 p fun _ => True) :
      Costs c level t.length 0 p fun _ => True :=
    h.mono (Nat.zero_le _) (Nat.le_refl 0)
  cases t with
  | nil =>
      unfold Plan.scanStep
      cases stop.faultAtEnd opened with
      | none => exact .pure trivial
      | some f => exact .fail _
  | cons d t =>
      unfold Plan.scanStep
      dsimp only
      by_cases hstop : stop.isAt opened d = true
      · simp only [hstop, if_true]
        exact hnothing (.pure trivial)
      · simp only [hstop, Bool.false_eq_true, if_false]
        split
        · exact hrest _ _ _
        · split
          · exact hnothing (.fail _)
          · refine (sectionKeyword _ _).free_bind fun keyword _ => ?_
            split
            · exact hnothing (.fail _)
            · next kind left _ => cases kind <;> exact hrest _ left _
          · next item rest _ hitem =>
            -- the event of the item is paid by a character that the rest does not have
            have hlength := Item.read_length hitem
            refine ((scanItem _ hdeeper site item).bind fun _ _ => hnext _ rest _).mono ?_
              (Nat.le_refl 0)
            rw [List.length_cons]
            omega

theorem scanItems (stop : Stop) (site : Site) (opened : Nat) (t : Text) :
    Costs c level t.length 0 (scanItems level deeper stop site opened t) fun _ => True := by
  induction hn : t.length using Nat.strong_induction_on generalizing opened t with
  | _ n ih =>
      have hblanks := (Text.skipBlanks_suffix t).length_le
      rw [Plan.scanItems]
      refine (scanStep hdeeper stop site opened fun opened rest hrest => ?_).mono
        (hn ▸ hblanks) (Nat.le_refl 0)
      exact ih _ (hn ▸ Nat.lt_of_lt_of_le hrest hblanks) opened rest rfl

end Texts

theorem scan (stop : Stop) (site : Site) (t : Text) :
    Costs c level t.length 0 (scan level stop site t) fun _ => True := by
  induction level generalizing stop site t with
  | zero => exact scanItems (deeper_none _) stop site 0 t
  | succ level ih =>
      refine scanItems (fun scan hscan => ?_) stop site 0 t
      cases hscan
      exact ⟨level, rfl, fun site t => (ih .textEnd site t).discard⟩

/-! ### Sources -/

theorem expect (site : Site) (read : Except Failure α) :
    Costs c level 0 0 (expect site read) fun a => read = .ok a := by
  cases read with
  | ok a => exact .pure rfl
  | error f => exact .fail _

theorem scanInternal (site : Site) (t : Text) :
    Costs c level t.length 0 (scanInternal level site t) fun _ => True := by
  unfold Plan.scanInternal
  split
  · next subset =>
    refine ((scan .bracket site subset).bind_free fun rest _ => .pure trivial).mono ?_
      (Nat.le_refl 0)
    exact Nat.le_succ _
  · exact (pure trivial).mono (Nat.zero_le _) (Nat.le_refl 0)

end Costs

/-- The external subset is read for what its text has of characters. -/
theorem CostsFrom.scanExternal {c : Setting σ} {level : Nat} {s : State σ}
    (hs : s.Fits c.limits level) (site : Site) (id : Option ExternalId) :
    CostsFrom c level s (externalText c.resolver s.asked site.location id).length 1
      (scanExternal level site id) fun _ => True := by
  cases id with
  | none => exact (Costs.pure trivial s hs).mono (Nat.zero_le _) (Nat.zero_le 1)
  | some id =>
      have hscan (r : Resource) (t : State σ)
          (hrun : (Plan.take (.load site.location id)).run c s = .ok r t)
          (ht : t.Fits c.limits level) :
          CostsFrom c level t
            (externalText c.resolver s.asked site.location (some id)).length 0
            (Functor.discard (Plan.scan level .textEnd (.ofResource r) r.text))
              fun _ => True := by
        simp only [Plan.run_take, Step.run] at hrun
        simp only [externalText, (load_eq_ok hrun).1]
        exact (Costs.scan .textEnd _ r.text).discard t ht
      exact ((Costs.load site.location id s hs).bind fun r t hrun ht _ =>
        hscan r t hrun ht).mono (Nat.le_of_eq (Nat.zero_add _)) (Nat.le_refl 1)

end Plan
end Markup

namespace Source

open Markup Plan

/-- The text of the external subset, as the resolver finds it behind the internal subset; it is
empty if there is none. -/
def externalText (s : Source) (c : Setting σ) (handled : σ) : Text :=
  match s.kind, readDoctype s.body with
  | .document, .ok (id, t) =>
    match scanInternal c s.site t (.start handled) with
    | .ok _ state => Markup.externalText c.resolver state.asked s.location id
    | .error _ _ => []
  | _, _ => []

def trace (s : Source) (c : Setting σ) (handled : σ) : List (Moment σ) :=
  (ofSource s c.limits.entityDepth).trace c (.start handled)

/-- The events of a source come from its text and from its external subset, or an entity pays
for them. -/
theorem costs_ofSource (s : Source) (c : Setting σ) (handled : σ) :
    CostsFrom c c.limits.entityDepth (.start handled)
      (s.text.length + (s.externalText c handled).length) 1
      (ofSource s c.limits.entityDepth) fun _ => True := by
  have hbody := s.body_suffix.length_le
  have hstart := State.fits_start c.limits handled
  refine ((Costs.checkSource _ _ hstart).bind fun u t hcheck ht _ => ?_).mono
    (Nat.le_of_eq (Nat.zero_add _)) (Nat.le_of_eq (Nat.zero_add 1))
  -- the check leaves the state alone
  simp only [Plan.run_take, Step.run] at hcheck
  obtain rfl := check_eq_ok hcheck
  cases hkind : s.kind with
  | dtd =>
      have hdtd : Costs c c.limits.entityDepth s.body.length 0
          (Plan.scanDtd c.limits.entityDepth s.site s.body) fun _ => True :=
        (Costs.scan .textEnd s.site s.body).discard.bind_free fun _ _ => .finish
      exact (hdtd _ ht).mono (by omega) (Nat.zero_le 1)
  | document =>
      cases hdoctype : readDoctype s.body with
      | error f =>
          simp only [Plan.scanDocument, hdoctype]
          exact (Costs.fail _ _ ht).mono (Nat.zero_le _) (Nat.zero_le 1)
      | ok p =>
          have hleft := (readDoctype_suffix hdoctype).length_le
          simp only [Plan.scanDocument, hdoctype]
          refine ((Costs.scanInternal s.site p.2 _ ht).bind fun t u hinternal hu _ => ?_).mono
            (Nat.add_le_add_right (hleft.trans hbody) _) (Nat.le_of_eq (Nat.zero_add 1))
          rw [Plan.run_scanInternal] at hinternal
          have hexternal : s.externalText c handled =
              Markup.externalText c.resolver u.asked s.location p.1 := by
            simp only [externalText, hkind, hdoctype, hinternal]
          rw [hexternal]
          split
          · refine (CostsFrom.scanExternal hu s.site p.1).bind_free fun _ _ =>
              Costs.finish.free_bind fun _ _ => (Costs.expect s.site _).free_bind
                fun left _ => ?_
            split
            · exact .fail .endOfDtd
            · exact .pure trivial
          · exact (Costs.fail _ _ hu).mono (Nat.zero_le _) (Nat.zero_le 1)

theorem filterMap_calls (s : Source) (c : Setting σ) (handled : σ) :
    (s.calls c handled).filterMap Call.event? = (s.trace c handled).filterMap fun m =>
      m.step.event? :=
  List.filterMap_filterMap ..

/-- Whatever the source, the resolver and the handler are, a run is bounded. Along its path the
entities that are being expanded differ and are not nested too deep, and the known replacement
texts are small; not too many entities are entered; every declaration that the handler is told
is small; there is at most one external text for each entity that is entered, and the external
subset; and all events come from the text, from the external subset, or from the replacement
texts. -/
theorem run_bounded (s : Source) (c : Setting σ) (handled : σ) :
    let trace := s.trace c handled
    let events := (s.calls c handled).filterMap Call.event?
    Moment.Path c (.start handled) trace (endState (s.scan c) (.start handled)) ∧
      (∀ m ∈ trace, ∀ t ∈ [m.before, m.after], t.active.Nodup ∧
      t.active.length ≤ c.limits.entityDepth ∧
        ∀ name text, (name, .internal text) ∈ t.entities →
          Text.size text ≤ c.limits.entityExpansionSize) ∧
      trace.countP Moment.enters ≤ c.limits.entityExpansions ∧
      (∀ e ∈ events, e.isDeclaration = true → e.size ≤ c.limits.entityExpansionSize) ∧
      trace.countP Moment.loads = (endState (s.scan c) (.start handled)).loads ∧
      trace.countP Moment.loads ≤ c.limits.entityExpansions + 1 ∧
      events.length ≤ s.text.length + (s.externalText c handled).length +
        c.limits.entityExpansions * c.limits.entityExpansionSize := by
  intro trace events
  have hpays : Pays c.limits _ _ trace := (costs_ofSource s c handled).1
  have hevents : events = trace.filterMap fun m => m.step.event? := filterMap_calls s c handled
  have hpath : Moment.Path c (.start handled) trace (endState (s.scan c) (.start handled)) :=
    run_ofSource c s ▸ path_trace c (ofSource s c.limits.entityDepth) (.start handled)
  have hentrances : trace.countP Moment.enters ≤ c.limits.entityExpansions :=
    hpath.entrances_le (Nat.zero_le _)
  refine ⟨hpath, fun m hm t ht => ?_, hentrances, fun e he => ?_, ?_, ?_, ?_⟩
  · have hstates := hpays.states m hm
    have hbounded : t.Bounded c.limits := by
      rcases List.mem_cons.1 ht with rfl | ht
      · exact hstates.1
      · exact List.mem_singleton.1 ht ▸ hstates.2
    exact ⟨hbounded.nodup, hbounded.depth, hbounded.replacements⟩
  · rw [hevents] at he
    obtain ⟨m, hm, he⟩ := List.mem_filterMap.1 he
    exact hpays.sizes m hm e he
  · exact (hpath.loads_eq.trans (Nat.zero_add _)).symm
  · have hloads := hpays.loads
    omega
  · rw [hevents, List.length_filterMap_eq_countP]
    exact hpays.events.trans (Nat.add_le_add_left (Nat.mul_le_mul_right _ hentrances) _)

end Source
end Doctype
