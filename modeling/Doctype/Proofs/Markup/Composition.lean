import Doctype.Proofs.Markup.Splicing

/-!
Scans of texts one behind the other. A text that is scanned on its own, and then another one
from the state that it leaves, is scanned as the two of them in one: the handler is told the
same, and the scan comes to the same end (`scanItems_compose`). The sites may differ, as those
of texts with other numbers of lines do: where faults are told changes neither the steps of a
scan nor its states (`Plan.Retells.alike`).
-/

namespace Doctype.Markup

variable {σ α β γ : Type} {c : Setting σ} {level : Nat} {site site' site₁ site₂ : Site}
  {stop : Stop}
  {opened opened' : Nat} {t u v rest r : Text} {s s' s₁ : State σ} {d : Char}

/-! ### Faults told elsewhere -/

namespace Step

def mute : Step α → Step α
  | enter _ name => enter (fun _ => .endOfDtd) name
  | enterTooDeep _ name => enterTooDeep (fun _ => .endOfDtd) name
  | x => x

/-- Whether a step is an entrance that is tried where no level is left. -/
def isTooDeep : Step α → Bool
  | enterTooDeep _ _ => true
  | _ => false

@[simp] theorem isEntrance_mute (x : Step α) : x.mute.isEntrance = x.isEntrance := by
  cases x <;> rfl

@[simp] theorem isTooDeep_mute (x : Step α) : x.mute.isTooDeep = x.isTooDeep := by
  cases x <;> rfl

theorem not_isEntrance {x : Step α} (h : x.isTooDeep = true) : x.isEntrance = false := by
  cases x with
  | enterTooDeep fault name => rfl
  | _ => cases h

@[simp] theorem call?_mute (x : Step α) : x.mute.call? = x.call? := by
  cases x <;> rfl

end Step

inductive SameEnd : EStateM.Result Error (State σ) α → EStateM.Result Error (State σ) α → Prop
  | ok (a : α) (s : State σ) : SameEnd (.ok a s) (.ok a s)
  | error (error error' : Error) (s : State σ) : SameEnd (.error error s) (.error error' s)

namespace SameEnd

variable {x x' x'' : EStateM.Result Error (State σ) α}

theorem refl (x : EStateM.Result Error (State σ) α) : SameEnd x x := by
  cases x with
  | ok a s => exact .ok a s
  | error e s => exact .error e e s

theorem symm (h : SameEnd x x') : SameEnd x' x := by
  cases h with
  | ok a s => exact .ok a s
  | error e e' s => exact .error e' e s

theorem trans (h : SameEnd x x') (h' : SameEnd x' x'') : SameEnd x x'' := by
  cases h with
  | ok a s => exact h'
  | error e e' s =>
      cases h' with
      | error _ e'' _ => exact .error e e'' s

theorem ok_iff (h : SameEnd x x') {a : α} : x = .ok a s ↔ x' = .ok a s := by
  cases h with
  | ok a s => exact .rfl
  | error e e' s => simp

end SameEnd

theorem sameEnd_enter (fault fault' : Fault → Error) (deeper : Option β) (name : Text)
    (s : State σ) :
    SameEnd (Markup.enter c fault deeper name s) (Markup.enter c fault' deeper name s) := by
  rw [enter_apply, enter_apply]
  by_cases hactive : s.active.contains name = true
  · simp only [hactive, if_true]
    exact .error _ _ s
  · simp only [hactive]
    exact .refl _

theorem Step.sameEnd_mute (x : Step α) (s : State σ) :
    SameEnd (x.run c s) (x.mute.run c s) := by
  cases x with
  | enter fault name =>
      simp only [run, mute]
      exact sameEnd_enter _ _ _ _ s
  | enterTooDeep fault name =>
      simp only [run, mute]
      exact sameEnd_enter _ _ _ _ s
  | _ => exact .refl _

namespace Plan

/-- The second plan takes the same steps as the first one, and both may tell their faults as
they like; but where the first one finds no level left, the second one is free to go on. -/
inductive Retells : Plan α → Plan α → Prop
  | done (a : α) : Retells (done a) (done a)
  | fail (error error' : Error) : Retells (fail error) (fail error')
  | step {β : Type} {x x' : Step β} {next next' : β → Plan α} : x'.mute = x.mute →
      (∀ answer, Retells (next answer) (next' answer)) → Retells (step x next) (step x' next')
  | deeper {β γ : Type} {x : Step β} {x' : Step γ} {next : β → Plan α} {next' : γ → Plan α} :
      x.isTooDeep = true → x'.isEntrance = true → Retells (step x next) (step x' next')

namespace Retells

theorem bind {p p' : Plan α} {f f' : α → Plan β} (hp : Retells p p')
    (hf : ∀ a, Retells (f a) (f' a)) : Retells (p >>= f) (p' >>= f') := by
  change Retells (p.bind f) (p'.bind f')
  induction hp with
  | done a => exact hf a
  | fail error error' => exact .fail error error'
  | step hmute _ ih => exact .step hmute ih
  | deeper hx hx' => exact .deeper hx hx'

theorem take (x : Step α) : Retells (take x) (take x) :=
  .step rfl .done

theorem within (fault fault' : Fault → Error) (name : Text)
    {inside inside' : Option (Plan α)} (h : GoesDeeper Retells inside inside') :
    Retells (within fault name inside) (within fault' name inside') := by
  cases inside with
  | none =>
      cases inside' with
      | none => exact .step rfl fun answer => answer.elim
      | some inside' => exact .deeper rfl rfl
  | some inside =>
      obtain ⟨inside', rfl, hinside⟩ := h inside rfl
      exact .step rfl fun _ => hinside.bind fun a => (take _).bind fun _ => .done a

theorem congruence :
    Congruence (fun _ => Retells) (fun _ _ => True) fun site site' =>
      site'.location = site.location where
  done := .done
  fail _ _ := .fail _ _
  bind := bind
  take _ := take _
  within name _ h := within _ _ name h
  fault _ _ := trivial
  location h := h
  ofEntity _ _ h := h
  ofResource _ := rfl

end Retells

/-- From a state two plans tell the handler the same, and their runs come to the same end. -/
structure Alike (c : Setting σ) (s : State σ) (p p' : Plan α) : Prop where
  calls : p'.calls c s = p.calls c s
  sameEnd : SameEnd (p.run c s) (p'.run c s)

theorem calls_step (c : Setting σ) (x : Step β) (next : β → Plan α) (s : State σ) :
    (Plan.step x next).calls c s = x.call?.toList ++ match x.run c s with
      | .ok answer t => (next answer).calls c t
      | .error _ _ => [] := by
  simp only [calls, trace]
  cases x.run c s with
  | ok answer t => cases hcall : x.call? <;> simp [hcall]
  | error e t => cases hcall : x.call? <;> simp [hcall]

/-- Behind the same step plans are alike if they are so from the state that it leaves. -/
theorem Alike.step {x x' : Step β} {next next' : β → Plan α} (hmute : x'.mute = x.mute)
    (h : ∀ answer t, Alike c t (next answer) (next' answer)) :
    Alike c s (Plan.step x next) (Plan.step x' next') := by
  have hcall : x'.call? = x.call? := by rw [← Step.call?_mute x', hmute, Step.call?_mute]
  have hend : SameEnd (x.run c s) (x'.run c s) :=
    (x.sameEnd_mute s).trans (hmute ▸ (x'.sameEnd_mute s).symm)
  constructor
  · rw [calls_step, calls_step, hcall]
    generalize x.run c s = result, x'.run c s = result' at hend
    cases hend with
    | ok answer t => exact congrArg _ (h answer t).calls
    | error e e' t => rfl
  · simp only [run, bind_apply]
    generalize x.run c s = result, x'.run c s = result' at hend
    cases hend with
    | ok answer t => exact (h answer t).sameEnd
    | error e e' t => exact .error e e' t

/-- Plans that retell each other are alike. -/
theorem Retells.alike {p p' : Plan α} (h : Retells p p') (h' : Retells p' p) (s : State σ) :
    Alike c s p p' := by
  induction h generalizing s with
  | done a => exact ⟨rfl, .refl _⟩
  | fail error error' => exact ⟨rfl, .error error error' s⟩
  | @step β x x' next next' hmute _ ih =>
      cases h' with
      | step _ hback => exact .step hmute fun answer t => ih answer (hback answer) t
      | deeper hx' hx =>
          have hmuted := Step.not_isEntrance hx'
          rw [← Step.isEntrance_mute, hmute, Step.isEntrance_mute, hx] at hmuted
          cases hmuted
  | @deeper β γ x x' next next' hx hx' =>
      cases h' with
      | step hmute _ =>
          have hmuted := Step.not_isEntrance hx
          rw [← Step.isEntrance_mute, hmute, Step.isEntrance_mute, hx'] at hmuted
          cases hmuted
      | deeper hdeep _ =>
          have := Step.not_isEntrance hdeep
          rw [hx'] at this
          cases this

/-! ### One item -/

theorem scanItems_of_blank (h : Text.skipBlanks t = [])
    (deeper : Option (Site → Text → Plan Unit)) (u : Text) :
    scanItems level deeper stop site opened (t ++ u) =
      scanItems level deeper stop site opened u := by
  rw [scanItems, Text.skipBlanks_extend_nil h, ← scanItems]

theorem scanItems_sectionEnd (h : Text.skipBlanks t = "]]>".toList ++ rest)
    (deeper : Option (Site → Text → Plan Unit)) :
    scanItems level deeper stop site (opened + 1) t =
      scanItems level deeper stop site opened rest := by
  rw [scanItems, h]
  have hend : sectionEnd? (opened + 1) (']' :: (']' :: '>' :: rest)) = some rest :=
    sectionEnd?_eq_some_iff.2 ⟨Nat.succ_pos opened, rfl⟩
  change scanStep level deeper stop site (opened + 1) (']' :: (']' :: '>' :: rest)) _ = _
  have hstop : stop.isAt (opened + 1) ']' = false := by simp [Stop.isAt]
  unfold scanStep
  simp only [hstop, Bool.false_eq_true, if_false]
  split
  · next he =>
    rw [hend] at he
    cases he
    rfl
  · next he =>
    rw [hend] at he
    cases he

/-- An item that does not start a section is scanned, and the scan goes on behind it. -/
theorem scanItems_item {item : Item} (hskip : Text.skipBlanks t = d :: v)
    (hread : Item.read d v = .ok (item, rest)) (hsection : item.isSection = false)
    (deeper : Option (Site → Text → Plan Unit)) :
    scanItems level deeper stop site opened t = (do
      scanItem (site.error (d :: v)) site level deeper item
      scanItems level deeper stop site opened rest) := by
  have hd := Item.ne_bracket_of_read hread
  rw [scanItems, hskip]
  unfold scanStep
  simp only [Stop.isAt_eq_false hd, Bool.false_eq_true, if_false]
  split
  · next he =>
    rw [sectionEnd?_eq_none hd] at he
    cases he
  · split
    · next hi =>
      rw [hread] at hi
      cases hi
    · next hi =>
      rw [hread] at hi
      cases hi
      cases hsection
    · next hi =>
      rw [hread] at hi
      cases hi
      rfl

/-- The start of a section is opened by its keyword, and the scan goes on in the section or
behind it. -/
theorem scanItems_sectionStart {keyword : SectionKeyword} {start : Text}
    (hskip : Text.skipBlanks t = d :: v)
    (hread : Item.read d v = .ok (.sectionStart keyword start, rest))
    (deeper : Option (Site → Text → Plan Unit)) :
    scanItems level deeper stop site opened t = (do
      let word ← sectionKeyword (site.error start) level keyword
      match openSection (d :: v) start word rest with
      | .error f => fail (site.error f.rest f.fault)
      | .ok (kind, left) => scanItems level deeper stop site (kind.opened opened) left) := by
  have hd := Item.ne_bracket_of_read hread
  conv_lhs => rw [scanItems, hskip]
  unfold scanStep
  simp only [Stop.isAt_eq_false hd, Bool.false_eq_true, if_false]
  split
  · next he =>
    rw [sectionEnd?_eq_none hd] at he
    cases he
  · split
    · next hi =>
      rw [hread] at hi
      cases hi
    · next hi =>
      rw [hread] at hi
      cases hi
      refine congrArg _ (funext fun word => ?_)
      split
      · next ho => rw [ho]
      · next kind left ho =>
        rw [ho]
        cases kind <;> rfl
    · next hsection hi =>
      rw [hread] at hi
      cases hi
      exact (hsection _ _ rfl).elim

end Plan

/-! ### Texts behind one another -/

theorem alike_scanItem (c : Setting σ) (s : State σ) (level : Nat)
    (hsite : site'.location = site.location) (fault fault' : Fault → Error) (item : Item) :
    Plan.Alike c s (Plan.scanItem fault site level (Plan.scanBelow level) item)
      (Plan.scanItem fault' site' level (Plan.scanBelow level) item) :=
  have congruence := Plan.Retells.congruence
  (congruence.scanItem trivial hsite le_rfl (congruence.scansDeeper le_rfl) item).alike
    (congruence.scanItem trivial hsite.symm le_rfl (congruence.scansDeeper le_rfl) item) s

theorem alike_sectionKeyword (c : Setting σ) (s : State σ) (level : Nat)
    (fault fault' : Fault → Error) (keyword : SectionKeyword) :
    Plan.Alike c s (Plan.sectionKeyword fault level keyword)
      (Plan.sectionKeyword fault' level keyword) :=
  (Plan.Retells.congruence.sectionKeyword trivial le_rfl keyword).alike
    (Plan.Retells.congruence.sectionKeyword trivial le_rfl keyword) s

theorem alike_scanItems (c : Setting σ) (s : State σ) (level : Nat)
    (hsite : site'.location = site.location) (stop : Stop) (opened : Nat) (t : Text) :
    Plan.Alike c s (Plan.scanItems level (Plan.scanBelow level) stop site opened t)
      (Plan.scanItems level (Plan.scanBelow level) stop site' opened t) :=
  have congruence := Plan.Retells.congruence
  (congruence.scanItems hsite le_rfl (congruence.scansDeeper le_rfl) stop opened t).alike
    (congruence.scanItems hsite.symm le_rfl (congruence.scansDeeper le_rfl) stop opened t) s

theorem Item.read_append {item : Item} (hread : Item.read d v = .ok (item, rest))
    (hsection : item.isSection = false) (u : Text) :
    Item.read d (v ++ u) = .ok (item, rest ++ u) := by
  have hextend : item.extend u = item := by
    cases item with
    | sectionStart keyword start => cases hsection
    | _ => rfl
  have hread' := Item.read_extend hread (by simp [hsection]) u
  rwa [hextend] at hread'

/-- A handler is told of an item, or of the end of a section, the same at all sites with the
same location and if more stands behind it, and then of what is left. -/
theorem Proceeds.exists_calls (h : Proceeds c level site opened t s opened' rest s') :
    ∃ calls, ∀ site' : Site, site'.location = site.location → ∀ stop more u,
      (Plan.scanItems level (Plan.scanBelow level) stop site' (opened + more) (t ++ u)).calls c
        s =
        calls ++ (Plan.scanItems level (Plan.scanBelow level) stop site' (opened' + more)
          (rest ++ u)).calls c s' := by
  cases h with
  | sectionEnd hskip =>
      refine ⟨[], fun site' _ stop more u => ?_⟩
      rw [Nat.add_right_comm, Plan.scanItems_sectionEnd (Text.skipBlanks_extend hskip u)]
      rfl
  | @sectionStart _ _ v start word rest left d keyword kind _ _ hskip hread hkeyword hopen =>
      refine ⟨(Plan.sectionKeyword (site.error start) level keyword).calls c s,
        fun site' _ stop more u => ?_⟩
      have hread' := Item.read_extend hread (fun _ => ne_nil_of_openSection hopen) u
      have hopen' := openSection_extend hopen (d :: (v ++ u)) (start ++ u) u
      have halike :=
        alike_sectionKeyword c s level (site.error start) (site'.error (start ++ u)) keyword
      rw [← Plan.run_sectionKeyword] at hkeyword
      rw [Plan.scanItems_sectionStart (Text.skipBlanks_extend hskip u) hread', Plan.calls_bind,
        halike.calls, halike.sameEnd.ok_iff.1 hkeyword, SectionKind.opened_add]
      simp only [hopen']
  | @item _ _ v rest d item _ _ hskip hread hsection hitem =>
      refine ⟨(Plan.scanItem (site.error (d :: v)) site level (Plan.scanBelow level)
        item).calls c s, fun site' hsite stop more u => ?_⟩
      have halike :=
        alike_scanItem c s level hsite (site.error (d :: v)) (site'.error (d :: (v ++ u))) item
      rw [← runDeeper_scanBelow, ← Plan.run_scanItem] at hitem
      rw [Plan.scanItems_item (Text.skipBlanks_extend hskip u)
        (Item.read_append hread hsection u) hsection,
        Plan.calls_bind, halike.calls, halike.sameEnd.ok_iff.1 hitem]

/-- A text that is scanned on its own tells the handler the same at all sites with the same
location and if more stands behind it. -/
theorem exists_calls_append
    (h : scanItems c level (scanBelow c level) .textEnd site opened t s = .ok r s') :
    ∃ calls, ∀ site' : Site, site'.location = site.location → ∀ stop more u,
      (Plan.scanItems level (Plan.scanBelow level) stop site' (opened + more) (t ++ u)).calls c
        s =
        calls ++ (Plan.scanItems level (Plan.scanBelow level) stop site' more u).calls c
          s' := by
  -- as for the states, every item leaves less of the text, and at its end no section of it is
  -- open
  induction hn : t.length using Nat.strong_induction_on generalizing t opened s with
  | h n ih =>
      obtain ⟨hblank, rfl, rfl⟩ | ⟨opened₁, rest, s₁, hproceeds⟩ := exists_proceeds h
      · refine ⟨[], fun site' _ stop more u => ?_⟩
        rw [Plan.scanItems_of_blank hblank, Nat.zero_add]
        rfl
      · rw [hproceeds.scanItems_eq] at h
        obtain ⟨first, hfirst⟩ := hproceeds.exists_calls
        obtain ⟨calls, hcalls⟩ := ih rest.length (hn ▸ hproceeds.length_lt) h rfl
        refine ⟨first ++ calls, fun site' hsite stop more u => ?_⟩
        rw [hfirst site' hsite, hcalls site' hsite, List.append_assoc]

/-- Scans compose. Where a text is scanned on its own, a scan of the text and another one
behind it tells the handler what the scan of the first text tells it and then what the scan of
the second one does, from the state that the first one leaves, and it comes to the end that
this one comes to. -/
theorem scanItems_compose (hsite₁ : site₁.location = site.location)
    (hsite₂ : site₂.location = site.location)
    (h : scan c level .textEnd site₁ t s = .ok r s₁) (stop : Stop) (opened : Nat) (u : Text) :
    (Plan.scanItems level (Plan.scanBelow level) stop site opened (t ++ u)).calls c s =
        (Plan.scan level .textEnd site₁ t).calls c s ++
          (Plan.scanItems level (Plan.scanBelow level) stop site₂ opened u).calls c s₁ ∧
      SameEnd (scanItems c level (scanBelow c level) stop site opened (t ++ u) s)
        (scanItems c level (scanBelow c level) stop site₂ opened u s₁) := by
  rw [scan_eq_scanItems] at h
  have halike := alike_scanItems c s₁ level hsite₂ stop opened u
  constructor
  · obtain ⟨calls, hcalls⟩ := exists_calls_append h
    have hall := hcalls site hsite₁.symm stop opened u
    have hfirst := hcalls site₁ rfl .textEnd 0 []
    rw [Nat.zero_add] at hall
    rw [List.append_nil, Nat.zero_add] at hfirst
    have hnone : (Plan.scanItems level (Plan.scanBelow level) .textEnd site₁ 0 []).calls c s₁ =
        [] := by
      rw [Plan.scanItems]
      rfl
    rw [hall, Plan.scan_eq_scanItems, hfirst, hnone, List.append_nil, halike.calls]
  · have happend := scanItems_append hsite₁.symm h stop opened u
    rw [Nat.zero_add] at happend
    have hend := halike.sameEnd
    rwa [Plan.run_scanItems, Plan.run_scanItems, runDeeper_scanBelow, ← happend] at hend

/-- The first text declares an entity, the second one refers to it and then fails. -/
theorem scanItems_compose_declaring :
    let c : Setting Recording := ⟨Recording.handler, .ofCatalog [], .standard⟩
    let t : Text := "<!ENTITY % p '<?q?>'>\n"
    let u : Text := "%p;\n%p"
    let site (t : Text) : Site := ⟨[], none, Text.lineBreaks t⟩
    ∃ s₁, scan c 2 .textEnd (site t) t (.start .empty) = .ok [] s₁ ∧
      (Plan.scanItems 2 (Plan.scanBelow 2) .textEnd (site (t ++ u)) 0 (t ++ u)).calls c
        (.start .empty) = (Plan.scan 2 .textEnd (site t) t).calls c (.start .empty) ++
          (Plan.scanItems 2 (Plan.scanBelow 2) .textEnd (site u) 0 u).calls c s₁ ∧
      SameEnd (scanItems c 2 (scanBelow c 2) .textEnd (site (t ++ u)) 0 (t ++ u)
        (.start .empty)) (scanItems c 2 (scanBelow c 2) .textEnd (site u) 0 u s₁) := by
  intro c t u site
  have ht : seen (fun r _ => r) (scan c 2 .textEnd (site t) t (.start .empty)) = .ok [] := by
    decide +kernel
  obtain ⟨r, s₁, hscan, rfl⟩ := exists_of_seen_eq_ok ht
  have hsite₁ : (site t).location = (site (t ++ u)).location := rfl
  have hsite₂ : (site u).location = (site (t ++ u)).location := rfl
  exact ⟨s₁, hscan, scanItems_compose hsite₁ hsite₂ hscan .textEnd 0 u⟩

example :
    let c : Setting Recording := ⟨Recording.handler, .ofCatalog [], .standard⟩
    (Plan.scan 2 .textEnd ⟨[], none, 0⟩ "<!ENTITY % p '<?q?>'>%p;%p").calls c (.start .empty) =
      [.event (.entity .parameter ['p'] "'<?q?>'"), .event (.instruction ['q'] [])] := by
  decide +kernel

end Doctype.Markup
