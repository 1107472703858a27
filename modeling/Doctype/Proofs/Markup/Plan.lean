import Mathlib.Data.Nat.Init
import Doctype.Proofs.Markup.Scanning
import Doctype.Source

/-!
Scans as plans. A plan says step by step what a scan does: which entities it looks up, enters
and leaves, what it asks the resolver for and what it tells the handler, with all that follows
on each answer. The plan of a source knows neither the handler nor the resolver, and of the
limits only how deep entities may be nested; to scan the source is to run its plan
(`Plan.run_ofSource`). So a statement about all scans is one lemma about steps and an induction
on plans, and the steps that a run takes, with the states between them, are a list
(`Plan.trace`).
-/

namespace Doctype.Markup

universe u

variable {σ α β : Type}

/-! ### Steps -/

/-- What a scan does at a time, by what it gives if it succeeds. The last entrance is one that
is tried where no level is left. -/
inductive Step : Type → Type
  | checkSource (size : Nat) : Step Unit
  | checkExpansion (size : Nat) : Step Unit
  | lookup (name : Text) : Step (Option Replacement)
  | enter (fault : Fault → Error) (name : Text) : Step Unit
  | enterTooDeep (fault : Fault → Error) (name : Text) : Step Empty
  | leave : Step Unit
  | load (base : Option Location) (id : ExternalId) : Step Resource
  | report (base : Option Location) (e : Event) : Step Unit
  | finish : Step Unit

/-- Takes a step. An event is remembered, too, if it declares a parameter entity. -/
def Step.run (c : Setting σ) : Step α → Scan σ α
  | checkSource size => check (c.limits.checkDtdSize size)
  | checkExpansion size => check (c.limits.checkExpansionSize size)
  | lookup name => do return (← get).entities.lookup name
  | enter fault name => Markup.enter c fault (some ()) name
  | enterTooDeep fault name => Markup.enter c fault none name
  | leave => Markup.leave
  | load base id => Markup.load c base id
  | report base e => do
    Markup.report c e
    modify (State.define base e)
  | finish => Source.finish c

/-! ### Plans -/

/-- A result, an error, or a step and what follows on its answer. -/
inductive Plan (α : Type) : Type 1
  | done (a : α)
  | fail (error : Error)
  | step {β : Type} (x : Step β) (next : β → Plan α)

namespace Plan

def bind (f : α → Plan β) : Plan α → Plan β
  | done a => f a
  | fail error => fail error
  | step x next => step x fun answer => (next answer).bind f

instance : Monad Plan where
  pure := done
  bind p f := p.bind f

def take (x : Step α) : Plan α :=
  step x done

def run (c : Setting σ) : Plan α → Scan σ α
  | done a => pure a
  | fail error => throw error
  | step x next => do (next (← x.run c)).run c

@[simp] theorem run_pure (c : Setting σ) (a : α) : (pure a : Plan α).run c = pure a := rfl

@[simp] theorem run_fail (c : Setting σ) (error : Error) :
    (fail error : Plan α).run c = throw error := rfl

@[simp] theorem run_bind (c : Setting σ) (p : Plan α) (f : α → Plan β) :
    (p >>= f).run c = p.run c >>= fun a => (f a).run c := by
  change (p.bind f).run c = _
  induction p with
  | done a => rfl
  | fail error => rfl
  | step x next ih =>
      simp only [bind, run, bind_assoc]
      exact congrArg _ (funext ih)

@[simp] theorem run_take (c : Setting σ) (x : Step α) : (take x).run c = x.run c :=
  bind_pure (x.run c)

end Plan

/-! ### Traces -/

/-- A step that a run takes: the states in front of it and behind it, and whether it
succeeds. -/
structure Moment (σ : Type) : Type 1 where
  {answer : Type}
  step : Step answer
  before : State σ
  after : State σ
  succeeds : Bool

/-- The steps that a run of a plan takes, up to the first one that fails. -/
def Plan.trace (c : Setting σ) : Plan α → State σ → List (Moment σ)
  | done _, _ => []
  | fail _, _ => []
  | step x next, s =>
    match x.run c s with
    | .ok answer t => ⟨x, s, t, true⟩ :: (next answer).trace c t
    | .error _ t => [⟨x, s, t, false⟩]

inductive Call
  | event (e : Event)
  | finish
  deriving DecidableEq

def Step.call? : Step α → Option Call
  | report _ e => some (.event e)
  | finish => some .finish
  | _ => none

namespace Plan

/-- What a run of a plan tells the handler; it may refuse what it is told last. -/
def calls (c : Setting σ) (p : Plan α) (s : State σ) : List Call :=
  (p.trace c s).filterMap fun m => m.step.call?

theorem trace_bind (c : Setting σ) (p : Plan α) (f : α → Plan β) (s : State σ) :
    (p >>= f).trace c s = p.trace c s ++
      match p.run c s with
      | .ok a t => (f a).trace c t
      | .error _ _ => [] := by
  change (p.bind f).trace c s = _
  induction p generalizing s with
  | done a => rfl
  | fail error => rfl
  | step x next ih =>
      simp only [bind, run, trace, bind_apply]
      cases x.run c s with
      | ok answer t => exact congrArg _ (ih answer t)
      | error error t => rfl

theorem calls_bind (c : Setting σ) (p : Plan α) (f : α → Plan β) (s : State σ) :
    (p >>= f).calls c s = p.calls c s ++
      match p.run c s with
      | .ok a t => (f a).calls c t
      | .error _ _ => [] := by
  simp only [calls, trace_bind, List.filterMap_append]
  cases p.run c s <;> rfl

/-! ### Expanding references -/

/-- What is done inside of an entity, which is entered first and left in the end. -/
def within (fault : Fault → Error) (name : Text) (inside : Option (Plan α)) : Plan α :=
  match inside with
  | none => step (.enterTooDeep fault name) nofun
  | some inside => do
    take (.enter fault name)
    let a ← inside
    take .leave
    return a

def replacementText : Replacement → Plan Text
  | .internal text => return text
  | .external id base => do
    let r ← take (.load base id)
    return r.text

def expandEntity (fault : Fault → Error) (deeper : Option (Text → Plan Text)) (name : Text) :
    Plan (Option Text) := do
  match ← take (.lookup name) with
  | none => return none
  | some r =>
    let expanded ← within fault name (deeper.map fun expand => replacementText r >>= expand)
    return some expanded

def expandPiece (replace : Text → Plan (Option Text)) (out : Buffer) : Piece → Plan Buffer
  | .char c => return out.push c
  | .reference name isQuoted => do
    match ← replace name with
    | some text =>
      return if isQuoted then out.append text else (out.push ' ').append text |>.push ' '
    | none => return out.append (writeReference name)

def expandPieces (inLiterals : Bool) (replace : Text → Plan (Option Text)) (t : Text) :
    Plan Text := do
  let out ← (pieces inLiterals t).foldlM (expandPiece replace) .empty
  take (.checkExpansion out.bytes)
  return out.toText

def expand (fault : Fault → Error) (inLiterals : Bool) : Nat → Text → Plan Text
  | 0, t => expandPieces inLiterals (expandEntity fault none) t
  | level + 1, t =>
    expandPieces inLiterals (expandEntity fault (some (expand fault inLiterals level))) t

/-! ### Items -/

def declare (fault : Fault → Error) (site : Site) (level : Nat) (kind : DeclarationKind)
    (body : Text) : Plan Unit := do
  let body ← expand fault (kind = .entity) level body
  match kind.read body with
  | .error f => fail (fault f)
  | .ok e => take (.report site.location e)

def scanEntity (fault : Fault → Error) (site : Site)
    (deeper : Option (Site → Text → Plan Unit)) (name : Text) : Plan Unit := do
  match ← take (.lookup name) with
  | none => return
  | some (.internal text) =>
    within fault name (deeper.map fun scan => scan (site.ofEntity name text) text)
  | some (.external id base) =>
    within fault name (deeper.map fun scan => do
      let r ← take (.load base id)
      take (.checkExpansion (Text.size r.text))
      scan (.ofResource r) r.text)

def sectionKeyword (fault : Fault → Error) (level : Nat) : SectionKeyword → Plan Text
  | .literal keyword => return keyword
  | .reference name => do
    let deeper := match level with
      | 0 => none
      | level + 1 => some (expand fault false level)
    match ← expandEntity fault deeper name with
    | some text => return Text.trim text
    | none => fail (fault (.undeclaredEntity name))

def scanItem (fault : Fault → Error) (site : Site) (level : Nat)
    (deeper : Option (Site → Text → Plan Unit)) : Item → Plan Unit
  | .comment text => take (.report none (.comment text))
  | .instruction target data => take (.report none (.instruction target data))
  | .declaration kind body => declare fault site level kind body
  | .reference name => scanEntity fault site deeper name
  | .textDeclaration => return
  | .sectionStart _ _ => return

/-! ### Texts -/

/-- What is done with the text behind its blanks; `next` goes on with what is left, which is
less. -/
def scanStep (level : Nat) (deeper : Option (Site → Text → Plan Unit)) (stop : Stop)
    (site : Site) (opened : Nat) :
    (t : Text) → (Nat → (rest : Text) → rest.length < t.length → Plan Text) → Plan Text
  | [], _ =>
    match stop.faultAtEnd opened with
    | some f => fail (site.error [] f)
    | none => return []
  | d :: t, next =>
    if stop.isAt opened d then return d :: t
    else
      match he : sectionEnd? opened (d :: t) with
      | some rest => next (opened - 1) rest (sectionEnd?_length he)
      | none =>
        match hi : Item.read d t with
        | .error f => fail (site.error f.rest f.fault)
        | .ok (.sectionStart keyword start, rest) => do
          let keyword ← sectionKeyword (site.error start) level keyword
          match ho : openSection (d :: t) start keyword rest with
          | .error f => fail (site.error f.rest f.fault)
          | .ok (kind, left) =>
            have hleft : left.length < (d :: t).length :=
              Nat.lt_succ_of_le (Nat.le_trans (openSection_length ho) (Item.read_length hi))
            match kind with
            | .included => next (opened + 1) left hleft
            | .ignored => next opened left hleft
        | .ok (item, rest) => do
          scanItem (site.error (d :: t)) site level deeper item
          next opened rest (Nat.lt_succ_of_le (Item.read_length hi))

def scanItems (level : Nat) (deeper : Option (Site → Text → Plan Unit)) (stop : Stop)
    (site : Site) (opened : Nat) (text : Text) : Plan Text :=
  scanStep level deeper stop site opened (Text.skipBlanks text) fun opened rest _ =>
    scanItems level deeper stop site opened rest
termination_by text.length
decreasing_by exact Nat.lt_of_lt_of_le ‹_› (Text.skipBlanks_suffix text).length_le

def scan : Nat → Stop → Site → Text → Plan Text
  | 0, stop, site, text => scanItems 0 none stop site 0 text
  | level + 1, stop, site, text =>
    scanItems (level + 1) (some fun site text => discard (scan level .textEnd site text))
      stop site 0 text

/-! ### Sources -/

def expect (site : Site) (result : Except Failure α) : Plan α :=
  match result with
  | .ok a => return a
  | .error f => fail (site.error f.rest f.fault)

def scanInternal (level : Nat) (site : Site) (t : Text) : Plan Text := do
  match t with
  | '[' :: subset =>
    let rest ← scan level .bracket site subset
    return Text.skipBlanks (rest.drop 1)
  | t => return t

def scanExternal (level : Nat) (site : Site) (id : Option ExternalId) : Plan Unit := do
  match id with
  | none => return
  | some id =>
    let r ← take (.load site.location id)
    discard (scan level .textEnd (.ofResource r) r.text)

def scanDocument (level : Nat) (site : Site) (text : Text) : Plan Unit := do
  let (id, t) ← expect site (Source.readDoctype text)
  let t ← scanInternal level site t
  match t with
  | '>' :: rest =>
    scanExternal level site id
    take .finish
    let left ← expect site (Source.skipMisc rest)
    if !left.isEmpty then fail .endOfDtd
  | t => fail (site.error t .doctypeEndMissing)

def scanDtd (level : Nat) (site : Site) (text : Text) : Plan Unit := do
  discard (scan level .textEnd site text)
  take .finish

def ofSource (s : Source) (level : Nat) : Plan Unit := do
  take (.checkSource (Text.size s.text))
  match s.kind with
  | .dtd => scanDtd level s.site s.body
  | .document => scanDocument level s.site s.body

/-! ### Running the plans -/

variable (c : Setting σ) (fault : Fault → Error)

theorem enter_none_congr {γ : Type} (name : Text) (f : α → Scan σ γ) (g : β → Scan σ γ) :
    enter c fault none name >>= f = enter c fault none name >>= g := by
  funext s
  rw [bind_apply, bind_apply, enter_apply, enter_apply]
  by_cases hactive : s.active.contains name = true
  · simp only [hactive, if_true]
  · simp only [hactive, Bool.false_eq_true, if_false]
    cases c.limits.checkExpansions (s.expansions + 1) <;> rfl

theorem enter_map_congr {δ : Type u} {γ : Type} {deeper : Option δ} {g : δ → α} {g' : δ → β}
    {f : α → Scan σ γ} {f' : β → Scan σ γ} (name : Text) (h : ∀ d, f (g d) = f' (g' d)) :
    enter c fault (deeper.map g) name >>= f = enter c fault (deeper.map g') name >>= f' := by
  cases deeper with
  | none => exact enter_none_congr c fault name f f'
  | some d =>
      rw [Option.map_some, Option.map_some, enter_some_bind, enter_some_bind c fault (g' d), h]

theorem run_within (name : Text) (inside : Option (Plan α)) :
    (within fault name inside).run c = (do
      let inside ← enter c fault (inside.map (run c)) name
      let a ← inside
      leave
      return a) := by
  cases inside with
  | none => exact enter_none_congr c fault name _ _
  | some inside =>
      rw [Option.map_some, enter_some_bind]
      simp [within, Step.run]

theorem run_replacementText (r : Replacement) : (replacementText r).run c = match r with
    | .internal text => pure text
    | .external id base => do return (← load c base id).text := by
  cases r <;> simp [replacementText, Step.run]

theorem run_expandEntity (deeper : Option (Text → Plan Text)) (name : Text) :
    (expandEntity fault deeper name).run c =
      Markup.expandEntity c fault (deeper.map fun expand t => (expand t).run c) name := by
  unfold expandEntity Markup.expandEntity
  simp only [run_bind, run_take, Step.run, bind_assoc, pure_bind]
  refine congrArg _ (funext fun s => ?_)
  cases s.entities.lookup name with
  | none => rfl
  | some r =>
      simp only [run_bind, run_within, Option.map_map, run_pure, bind_assoc, pure_bind]
      refine enter_map_congr c fault name fun expand => ?_
      cases r <;> simp [run_replacementText]

theorem run_expandPiece {replace : Text → Plan (Option Text)}
    {replace' : Text → Scan σ (Option Text)}
    (hreplace : ∀ name, (replace name).run c = replace' name) (out : Buffer) (p : Piece) :
    (expandPiece replace out p).run c = Markup.expandPiece replace' out p := by
  cases p with
  | char d => rfl
  | reference name isQuoted =>
      simp only [expandPiece, Markup.expandPiece, run_bind, hreplace]
      refine congrArg _ (funext fun o => ?_)
      cases o <;> rfl

theorem run_foldlM_expandPiece {replace : Text → Plan (Option Text)}
    {replace' : Text → Scan σ (Option Text)}
    (hreplace : ∀ name, (replace name).run c = replace' name) (ps : List Piece)
    (out : Buffer) :
    (ps.foldlM (expandPiece replace) out).run c =
      ps.foldlM (Markup.expandPiece replace') out := by
  induction ps generalizing out with
  | nil => rfl
  | cons p ps ih =>
      rw [List.foldlM_cons, List.foldlM_cons, run_bind, run_expandPiece c hreplace]
      exact congrArg _ (funext ih)

theorem run_expandPieces {replace : Text → Plan (Option Text)}
    {replace' : Text → Scan σ (Option Text)}
    (hreplace : ∀ name, (replace name).run c = replace' name) (inLiterals : Bool) (t : Text) :
    (expandPieces inLiterals replace t).run c =
      Markup.expandPieces c inLiterals replace' t := by
  simp [expandPieces, Markup.expandPieces, run_foldlM_expandPiece c hreplace, Step.run]

theorem run_expand (inLiterals : Bool) (level : Nat) (t : Text) :
    (expand fault inLiterals level t).run c = Markup.expand c fault inLiterals level t := by
  induction level generalizing t with
  | zero => exact run_expandPieces c (run_expandEntity c fault none) inLiterals t
  | succ level ih =>
      refine run_expandPieces c (fun name => ?_) inLiterals t
      rw [run_expandEntity, Option.map_some, funext ih]

theorem run_declare (site : Site) (level : Nat) (kind : DeclarationKind) (body : Text) :
    (declare fault site level kind body).run c =
      Markup.declare c fault site level kind body := by
  unfold declare Markup.declare
  rw [run_bind, run_expand]
  refine congrArg _ (funext fun body => ?_)
  cases kind.read body with
  | error f => rfl
  | ok e => exact run_take c _

abbrev runDeeper (deeper : Option (Site → Text → Plan Unit)) :
    Option (Site → Text → Scan σ Unit) :=
  deeper.map fun scan site t => (scan site t).run c

theorem run_scanEntity (site : Site) (deeper : Option (Site → Text → Plan Unit))
    (name : Text) :
    (scanEntity fault site deeper name).run c =
      Markup.scanEntity c fault site (runDeeper c deeper) name := by
  unfold scanEntity Markup.scanEntity
  simp only [run_bind, run_take, Step.run, bind_assoc, pure_bind]
  refine congrArg _ (funext fun s => ?_)
  cases s.entities.lookup name with
  | none => rfl
  | some r =>
      cases r <;>
      · simp only [run_within, Option.map_map]
        exact enter_map_congr c fault name fun scan => by simp [Step.run]

theorem run_sectionKeyword (level : Nat) (keyword : SectionKeyword) :
    (sectionKeyword fault level keyword).run c =
      Markup.sectionKeyword c fault level keyword := by
  cases keyword with
  | literal keyword => rfl
  | reference name =>
      simp only [sectionKeyword, Markup.sectionKeyword, run_bind, run_expandEntity]
      have hdeeper : (Option.map (fun expand t => (expand t).run c)
          (match level with | 0 => none | level + 1 => some (expand fault false level))) =
          match level with
          | 0 => none
          | level + 1 => some (Markup.expand c fault false level) := by
        cases level with
        | zero => rfl
        | succ level => exact congrArg some (funext (run_expand c fault false level))
      rw [hdeeper]
      refine congrArg _ (funext fun o => ?_)
      cases o <;> rfl

theorem run_remark {e : Event} (hremark : ∀ s : State σ, State.define none e s = s) :
    (take (.report none e)).run c = report c e := by
  have hdefine : (State.define none e : State σ → State σ) = id := funext hremark
  rw [run_take, Step.run, hdefine]
  exact bind_pure (report c e)

theorem run_scanItem (site : Site) (level : Nat) (deeper : Option (Site → Text → Plan Unit))
    (item : Item) :
    (scanItem fault site level deeper item).run c =
      Markup.scanItem c fault site level (runDeeper c deeper) item := by
  cases item with
  | comment text => exact run_remark c fun _ => rfl
  | instruction target data => exact run_remark c fun _ => rfl
  | declaration kind body => exact run_declare c fault site level kind body
  | reference name => exact run_scanEntity c fault site deeper name
  | textDeclaration => rfl
  | sectionStart keyword start => rfl

theorem run_scanStep (level : Nat) (deeper : Option (Site → Text → Plan Unit)) (stop : Stop)
    (site : Site) {next' : Nat → Text → Scan σ Text} (opened : Nat) {t : Text}
    {next : Nat → (rest : Text) → rest.length < t.length → Plan Text}
    (hnext : ∀ opened rest h, (next opened rest h).run c = next' opened rest) :
    (scanStep level deeper stop site opened t next).run c =
      Markup.scanStep c level (runDeeper c deeper) stop site next' opened t := by
  cases t with
  | nil =>
      unfold scanStep Markup.scanStep
      cases stop.faultAtEnd opened <;> rfl
  | cons d t =>
      unfold scanStep Markup.scanStep
      dsimp only
      split
      · rfl
      · split
        · next he => simp only [he, hnext]
        · next he =>
          simp only [he]
          split
          · next hi => simp only [hi, run_fail]
          · next hi =>
            simp only [hi, run_bind, run_sectionKeyword]
            refine congrArg _ (funext fun keyword => ?_)
            split
            · next ho => simp only [ho, run_fail]
            · next kind left ho =>
              simp only [ho]
              cases kind <;> exact hnext _ _ _
          · next item rest hne hi =>
            simp only [hi, run_bind, run_scanItem, hnext]

theorem run_scanItems (level : Nat) (deeper : Option (Site → Text → Plan Unit)) (stop : Stop)
    (site : Site) (opened : Nat) (t : Text) :
    (scanItems level deeper stop site opened t).run c =
      Markup.scanItems c level (runDeeper c deeper) stop site opened t := by
  induction hn : t.length using Nat.strong_induction_on generalizing opened t with
  | _ n ih =>
      rw [scanItems, scanItems_eq]
      refine run_scanStep c level deeper stop site opened fun opened rest hrest => ?_
      exact ih _ (hn ▸ Nat.lt_of_lt_of_le hrest (Text.skipBlanks_suffix t).length_le)
        opened rest rfl

theorem run_scan (level : Nat) (stop : Stop) (site : Site) (t : Text) :
    (scan level stop site t).run c = Markup.scan c level stop site t := by
  induction level generalizing stop site t with
  | zero => exact run_scanItems c 0 none stop site 0 t
  | succ level ih =>
      have hdeeper : runDeeper c (some fun site t => discard (scan level .textEnd site t)) =
          some fun site t => discard (Markup.scan c level .textEnd site t) := by
        refine congrArg some (funext fun site => funext fun t => ?_)
        exact (run_bind c _ _).trans (by rw [ih]; rfl)
      rw [scan, run_scanItems, hdeeper]
      rfl

theorem run_discard (p : Plan α) : (discard p).run c = discard (p.run c) :=
  run_bind c p _

theorem run_expect (site : Site) (result : Except Failure α) :
    (expect site result).run c = Source.expect site result := by
  cases result <;> rfl

theorem run_scanInternal (site : Site) (t : Text) :
    (scanInternal c.limits.entityDepth site t).run c = Source.scanInternal c site t := by
  rcases t with _ | ⟨d, t⟩
  · rfl
  · by_cases hd : d = '['
    · subst hd
      simp only [scanInternal, Source.scanInternal, run_bind, run_scan, run_pure]
    · simp [scanInternal, Source.scanInternal, hd]

theorem run_scanExternal (site : Site) (id : Option ExternalId) :
    (scanExternal c.limits.entityDepth site id).run c = Source.scanExternal c site id := by
  cases id with
  | none => rfl
  | some id =>
      simp only [scanExternal, Source.scanExternal, run_bind, run_take, run_discard,
        run_scan, Step.run]

theorem run_scanDocument (site : Site) (t : Text) :
    (scanDocument c.limits.entityDepth site t).run c = Source.scanDocument c site t := by
  unfold scanDocument Source.scanDocument
  rw [run_bind, run_expect]
  refine congrArg _ (funext fun p => ?_)
  rw [run_bind, run_scanInternal]
  refine congrArg _ (funext fun t => ?_)
  rcases t with _ | ⟨d, t⟩
  · rfl
  · by_cases hd : d = '>'
    · subst hd
      simp only [run_bind, run_scanExternal, run_take, run_expect, Step.run]
      refine congrArg _ (funext fun _ =>
        congrArg _ (funext fun _ => congrArg _ (funext fun left => ?_)))
      cases left <;> rfl
    · simp [hd]

/-- To scan a source is to run its plan. -/
theorem run_ofSource (s : Source) : (ofSource s c.limits.entityDepth).run c = s.scan c := by
  unfold ofSource Source.scan
  rw [run_bind, run_take]
  refine congrArg _ (funext fun _ => ?_)
  cases s.kind with
  | dtd =>
      simp only [scanDtd, Source.scanDtd, run_bind, run_discard, run_scan, run_take, Step.run]
  | document => exact run_scanDocument c s.site s.body

end Plan
end Doctype.Markup
