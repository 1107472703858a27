import Doctype.Proofs.Markup.Plan

/-!
Relations between plans that are kept when plans are put together. What is kept by plain steps,
by doing one thing after the other and by what is done inside of an entity is kept by every
part of a scan, also if the second plan has more levels and tells its faults at other sites
(`Plan.Congruence.scan`).
-/

namespace Doctype.Markup

universe u

variable {α β : Type}

/-- Whether a step is taken inside of a text and neither enters nor leaves an entity. -/
def Step.isPlain : Step α → Bool
  | checkExpansion _ => true
  | lookup _ => true
  | load _ _ => true
  | report _ _ => true
  | _ => false

namespace Plan

/-- What is done with the texts inside of entities that are met with `level` levels to go. -/
def scanBelow : Nat → Option (Site → Text → Plan Unit)
  | 0 => none
  | level + 1 => some fun site t => discard (scan level .textEnd site t)

theorem scan_eq_scanItems (level : Nat) (stop : Stop) (site : Site) (t : Text) :
    scan level stop site t = scanItems level (scanBelow level) stop site 0 t := by
  cases level <;> rfl

/-- Whatever can be done at a level of the first plan can be done at one of the second. -/
abbrev GoesDeeper {δ : Type u} (R : δ → δ → Prop) (deeper deeper' : Option δ) : Prop :=
  ∀ inside ∈ deeper, ∃ inside' ∈ deeper', R inside inside'

theorem goesDeeper_none {δ : Type u} {R : δ → δ → Prop} (deeper' : Option δ) :
    GoesDeeper R none deeper' :=
  fun _ h => by cases h

/-- The relation `R` between plans is kept by all that plans are put together of. Faults are
told by functions that `F` relates, at sites that `S` relates. -/
structure Congruence (R : (α : Type) → Plan α → Plan α → Prop)
    (F : (Fault → Error) → (Fault → Error) → Prop) (S : Site → Site → Prop) : Prop where
  done {α : Type} (a : α) : R α (done a) (done a)
  fail {α : Type} {fault fault' : Fault → Error} (f : Fault) : F fault fault' →
    R α (fail (fault f)) (fail (fault' f))
  bind {α β : Type} {p p' : Plan α} {f f' : α → Plan β} : R α p p' → (∀ a, R β (f a) (f' a)) →
    R β (p >>= f) (p' >>= f')
  take {α : Type} {x : Step α} : x.isPlain = true → R α (take x) (take x)
  within {α : Type} {fault fault' : Fault → Error} {inside inside' : Option (Plan α)}
    (name : Text) :
    F fault fault' → GoesDeeper (R α) inside inside' →
    R α (within fault name inside) (within fault' name inside')
  fault {site site' : Site} (rest : Text) : S site site' →
    F (site.error rest) (site'.error rest)
  location {site site' : Site} : S site site' → site'.location = site.location
  ofEntity {site site' : Site} (name text : Text) : S site site' →
    S (site.ofEntity name text) (site'.ofEntity name text)
  ofResource (r : Resource) : S (.ofResource r) (.ofResource r)

namespace Congruence

variable {R : (α : Type) → Plan α → Plan α → Prop}
  {F : (Fault → Error) → (Fault → Error) → Prop}
  {S : Site → Site → Prop} {fault fault' : Fault → Error} {site site' : Site}
    {level level' : Nat}

section

variable (h : Congruence R F S)
include h

theorem discard {p p' : Plan α} (hp : R α p p') : R Unit (discard p) (discard p') :=
  h.bind hp fun _ => h.done _

/-! ### Expanding references -/

theorem within_map {δ : Type u} {Q : δ → δ → Prop} {deeper deeper' : Option δ}
    (hfault : F fault fault') (name : Text) (hdeeper : GoesDeeper Q deeper deeper')
    {f : δ → Plan α} {f' : δ → Plan α} (hf : ∀ {d d'}, Q d d' → R α (f d) (f' d')) :
    R α (Plan.within fault name (deeper.map f))
      (Plan.within fault' name (deeper'.map f')) := by
  refine h.within name hfault fun inside hinside => ?_
  obtain ⟨d, hd, rfl⟩ := Option.map_eq_some_iff.1 hinside
  obtain ⟨d', hd', hQ⟩ := hdeeper d hd
  exact ⟨f' d', Option.map_eq_some_iff.2 ⟨d', hd', rfl⟩, hf hQ⟩

theorem replacementText (r : Replacement) :
    R Text (replacementText r) (replacementText r) := by
  cases r with
  | internal text => exact h.done text
  | external id base => exact h.bind (h.take rfl) fun r => h.done r.text

abbrev ExpandsDeeper (R : (α : Type) → Plan α → Plan α → Prop) :
    Option (Text → Plan Text) → Option (Text → Plan Text) → Prop :=
  GoesDeeper fun expand expand' => ∀ t, R Text (expand t) (expand' t)

theorem expandEntity (hfault : F fault fault') {deeper deeper' : Option (Text → Plan Text)}
    (hdeeper : ExpandsDeeper R deeper deeper') (name : Text) :
    R (Option Text) (expandEntity fault deeper name) (expandEntity fault' deeper' name) := by
  refine h.bind (h.take rfl) fun found => ?_
  cases found with
  | none => exact h.done none
  | some r =>
      refine h.bind (h.within_map hfault name hdeeper fun hexpand => ?_) fun expanded =>
        h.done (some expanded)
      exact h.bind (h.replacementText r) hexpand

theorem expandPieces {replace replace' : Text → Plan (Option Text)}
    (hreplace : ∀ name, R (Option Text) (replace name) (replace' name)) (inLiterals : Bool)
    (t : Text) :
    R Text (expandPieces inLiterals replace t) (expandPieces inLiterals replace' t) := by
  have hpiece (out : Buffer) (p : Piece) :
      R Buffer (expandPiece replace out p) (expandPiece replace' out p) := by
    cases p with
    | char c => exact h.done _
    | reference name isQuoted =>
        refine h.bind (hreplace name) fun o => ?_
        cases o <;> exact h.done _
  have hfold (ps : List Piece) (out : Buffer) :
      R Buffer (ps.foldlM (expandPiece replace) out)
        (ps.foldlM (expandPiece replace') out) := by
    induction ps generalizing out with
    | nil => exact h.done out
    | cons p ps ih => exact h.bind (hpiece out p) ih
  exact h.bind (hfold _ _) fun _ => h.bind (h.take rfl) fun _ => h.done _

theorem expand (hfault : F fault fault') (inLiterals : Bool) (hlevel : level ≤ level')
    (t : Text) :
    R Text (expand fault inLiterals level t) (expand fault' inLiterals level' t) := by
  induction level generalizing level' t with
  | zero =>
      cases level' with
      | zero => exact h.expandPieces (h.expandEntity hfault (goesDeeper_none _)) inLiterals t
      | succ level' =>
          exact h.expandPieces (h.expandEntity hfault (goesDeeper_none _)) inLiterals t
  | succ level ih =>
      obtain ⟨level', rfl⟩ := Nat.exists_eq_add_of_le' hlevel
      refine h.expandPieces (h.expandEntity hfault fun expand hexpand => ?_) inLiterals t
      cases hexpand
      exact ⟨_, rfl, ih (Nat.le_add_left _ _)⟩

/-! ### Items -/

theorem declare (hfault : F fault fault') (hsite : S site site') (hlevel : level ≤ level')
    (kind : DeclarationKind) (body : Text) :
    R Unit (declare fault site level kind body) (declare fault' site' level' kind body) := by
  refine h.bind (h.expand hfault (kind = .entity) hlevel body) fun body => ?_
  cases kind.read body with
  | error f => exact h.fail f hfault
  | ok e =>
      rw [h.location hsite]
      exact h.take rfl

abbrev ScansDeeper (R : (α : Type) → Plan α → Plan α → Prop) (S : Site → Site → Prop) :
    Option (Site → Text → Plan Unit) → Option (Site → Text → Plan Unit) → Prop :=
  GoesDeeper fun scan scan' => ∀ site site' t, S site site' →
    R Unit (scan site t) (scan' site' t)

theorem scanEntity (hfault : F fault fault') (hsite : S site site')
    {deeper deeper' : Option (Site → Text → Plan Unit)}
    (hdeeper : ScansDeeper R S deeper deeper') (name : Text) :
    R Unit (scanEntity fault site deeper name) (scanEntity fault' site' deeper' name) := by
  refine h.bind (h.take rfl) fun found => ?_
  cases found with
  | none => exact h.done ()
  | some r =>
      cases r with
      | internal text =>
          exact h.within_map hfault name hdeeper fun hscan =>
            hscan _ _ text (h.ofEntity name text hsite)
      | external id base =>
          exact h.within_map hfault name hdeeper fun hscan =>
            h.bind (h.take rfl) fun r => h.bind (h.take rfl) fun _ =>
              hscan _ _ r.text (h.ofResource r)

theorem sectionKeyword (hfault : F fault fault') (hlevel : level ≤ level')
    (keyword : SectionKeyword) :
    R Text (sectionKeyword fault level keyword) (sectionKeyword fault' level' keyword) := by
  cases keyword with
  | literal keyword => exact h.done keyword
  | reference name =>
      refine h.bind (h.expandEntity hfault ?_ name) fun o => ?_
      · cases level with
        | zero => exact goesDeeper_none _
        | succ level =>
            obtain ⟨level', rfl⟩ := Nat.exists_eq_add_of_le' hlevel
            intro run hrun
            cases hrun
            exact ⟨_, rfl, h.expand hfault false (Nat.le_add_left _ _)⟩
      · cases o with
        | none => exact h.fail _ hfault
        | some text => exact h.done _

theorem scanItem (hfault : F fault fault') (hsite : S site site') (hlevel : level ≤ level')
    {deeper deeper' : Option (Site → Text → Plan Unit)}
    (hdeeper : ScansDeeper R S deeper deeper') (item : Item) :
    R Unit (scanItem fault site level deeper item)
      (scanItem fault' site' level' deeper' item) := by
  cases item with
  | comment text => exact h.take rfl
  | instruction target data => exact h.take rfl
  | declaration kind body => exact h.declare hfault hsite hlevel kind body
  | reference name => exact h.scanEntity hfault hsite hdeeper name
  | textDeclaration => exact h.done ()
  | sectionStart keyword start => exact h.done ()

/-! ### Texts -/

theorem scanStep (hsite : S site site') (hlevel : level ≤ level')
    {deeper deeper' : Option (Site → Text → Plan Unit)}
    (hdeeper : ScansDeeper R S deeper deeper') (stop : Stop) (opened : Nat) {t : Text}
    {next next' : Nat → (rest : Text) → rest.length < t.length → Plan Text}
    (hnext : ∀ opened rest hrest, R Text (next opened rest hrest) (next' opened rest hrest)) :
    R Text (scanStep level deeper stop site opened t next)
      (scanStep level' deeper' stop site' opened t next') := by
  cases t with
  | nil =>
      unfold Plan.scanStep
      cases stop.faultAtEnd opened with
      | none => exact h.done []
      | some f => exact h.fail f (h.fault [] hsite)
  | cons d t =>
      unfold Plan.scanStep
      dsimp only
      by_cases hstop : stop.isAt opened d = true
      · simp only [hstop, if_true]
        exact h.done (d :: t)
      · simp only [hstop, Bool.false_eq_true, if_false]
        split
        · exact hnext _ _ _
        · split
          · exact h.fail _ (h.fault _ hsite)
          · refine h.bind (h.sectionKeyword (h.fault _ hsite) hlevel _) fun keyword => ?_
            split
            · exact h.fail _ (h.fault _ hsite)
            · next kind left _ => cases kind <;> exact hnext _ left _
          · exact h.bind (h.scanItem (h.fault _ hsite) hsite hlevel hdeeper _)
              fun _ => hnext _ _ _

theorem scanItems (hsite : S site site') (hlevel : level ≤ level')
    {deeper deeper' : Option (Site → Text → Plan Unit)}
    (hdeeper : ScansDeeper R S deeper deeper') (stop : Stop) (opened : Nat) (t : Text) :
    R Text (scanItems level deeper stop site opened t)
      (scanItems level' deeper' stop site' opened t) := by
  induction hn : t.length using Nat.strong_induction_on generalizing opened t with
  | _ n ih =>
      rw [Plan.scanItems, Plan.scanItems]
      refine h.scanStep hsite hlevel hdeeper stop opened fun opened rest hrest => ?_
      exact ih _ (hn ▸ Nat.lt_of_lt_of_le hrest (Text.skipBlanks_suffix t).length_le)
        opened rest rfl

theorem scansDeeper (hlevel : level ≤ level') :
    ScansDeeper R S (scanBelow level) (scanBelow level') := by
  induction level generalizing level' with
  | zero => exact goesDeeper_none _
  | succ level ih =>
      obtain ⟨level', rfl⟩ := Nat.exists_eq_add_of_le' hlevel
      have hless : level ≤ level' + level := Nat.le_add_left _ _
      rintro scan ⟨⟩
      refine ⟨_, rfl, fun site site' t hsite => ?_⟩
      simp only [scan_eq_scanItems]
      exact h.discard (h.scanItems hsite hless (ih hless) .textEnd 0 t)

theorem scan (hsite : S site site') (hlevel : level ≤ level') (stop : Stop) (t : Text) :
    R Text (scan level stop site t) (scan level' stop site' t) := by
  rw [scan_eq_scanItems, scan_eq_scanItems]
  exact h.scanItems hsite hlevel (h.scansDeeper hlevel) stop 0 t

end

end Congruence
end Plan
end Doctype.Markup
