import Doctype.Proofs.Markup.Binding
import Doctype.Proofs.Markup.Excerpts

/-!
Scans of texts over an alphabet. What a scan records has characters of the texts that it reads,
single spaces and characters that references in recorded events denote (`Source.over_collect`).
Every construct of a scan gets a rule about this, and the rules compose (`Confined`).
-/

namespace Doctype

namespace Markup

variable {A : Char → Prop} {α β : Type}

def Replacement.Over (A : Char → Prop) : Replacement → Prop
  | internal text => Text.Over A text
  | external _ _ => True

def State.recorded (s : State Recording) : List Event :=
  s.handled.events.toList

structure State.Over (A : Char → Prop) (s : State Recording) : Prop where
  events : ∀ e ∈ s.recorded, e.Over A
  replacements : ∀ {name r}, s.entities.lookup name = some r → r.Over A

abbrev OptionOver (A : Char → Prop) (o : Option Text) : Prop :=
  ∀ t ∈ o, Text.Over A t

/-- `Confined A given x yields`: a part of a scan forgets no event, and if `given` holds, it
stays over the alphabet and gives something that `yields`, unless a reference in one of the
events that are recorded in the end denotes a character outside the alphabet. -/
structure Confined (A : Char → Prop) (given : Prop) (x : Scan Recording α)
    (yields : α → Prop) : Prop where
  grows : ∀ s, s.recorded ⊆ (endState x s).recorded
  keeps : given → ∀ s, s.Over A → (∀ e ∈ (endState x s).recorded, e.Clean A) →
    (endState x s).Over A ∧ ∀ a t, x s = .ok a t → yields a

/-- A setting that records all events, and whose external texts are over the alphabet. -/
structure Records (A : Char → Prop) (c : Setting Recording) : Prop where
  covers : Covers A
  handler : c.handler = Recording.handler
  resolver : ∀ {asked request r}, c.resolver.answer asked request = .ok r → Text.Over A r.text

/-- What an event makes a parameter entity be replaced by. -/
theorem over_of_replacement? (hA : Covers A) {base : Option Location} {name : Text}
    {e : Event} {r : Replacement} (he : e.Over A) (hclean : e.Clean A)
    (h : replacement? base name e = some r) : r.Over A := by
  unfold replacement? at h
  split at h
  · next owner raw =>
    split at h
    · have hraw : Text.Over A raw := he raw (by simp [Event.texts])
      unfold Replacement.ofDefinition? at h
      split at h
      · next value hparse =>
        cases h
        exact hclean.over_expandChars hparse (Entity.Definition.over_of_parse hA hraw hparse)
      · cases h
        trivial
      · cases h
    · cases h
  · cases h

namespace Confined

variable {given given' : Prop} {x : Scan Recording α} {yields : α → Prop}
  {f : α → Scan Recording β}
  {yields' : β → Prop}

theorem mono (h : Confined A given x yields) (hgiven : given' → given) :
    Confined A given' x yields :=
  ⟨h.grows, fun hg => h.keeps (hgiven hg)⟩

theorem of_still
    (hx : ∀ s, (endState x s).recorded = s.recorded ∧ (endState x s).entities = s.entities)
    (hyields : given → ∀ s : State Recording, s.Over A → ∀ a t, x s = .ok a t → yields a) :
    Confined A given x yields where
  grows s := by rw [(hx s).1]; exact List.Subset.refl _
  keeps hg s hs _ :=
    ⟨⟨by rw [(hx s).1]; exact hs.events, by rw [(hx s).2]; exact hs.replacements⟩,
      hyields hg s hs⟩

theorem pure {a : α} (h : given → yields a) : Confined A given (pure a) yields :=
  .of_still (fun _ => ⟨rfl, rfl⟩) fun hg _ _ _ _ heq => by
    cases heq
    exact h hg

theorem throw (error : Error) : Confined A given (throw error) yields :=
  .of_still (fun _ => ⟨rfl, rfl⟩) fun _ _ _ _ _ heq => by cases heq

theorem get : Confined A given get (State.Over A) :=
  .of_still (fun _ => ⟨rfl, rfl⟩) fun _ _ hs _ _ heq => by
    cases heq
    exact hs

theorem bind (hx : Confined A given x yields)
    (hf : ∀ a, Confined A (given ∧ yields a) (f a) yields') :
    Confined A given (x >>= f) yields' := by
  have hgrows (s : State Recording) : (endState x s).recorded ⊆
      (endState (x >>= f) s).recorded := by
    unfold endState
    rw [bind_apply]
    cases x s with
    | ok a t => exact (hf a).grows t
    | error error t => exact List.Subset.refl _
  refine ⟨fun s => List.Subset.trans (hx.grows s) (hgrows s), fun hg s hs hclean => ?_⟩
  -- the references are clean after the first part, since no event is forgotten behind it
  obtain ⟨hkeeps, hresult⟩ := hx.keeps hg s hs fun e he => hclean e (hgrows s he)
  unfold endState at hkeeps hclean ⊢
  rw [bind_apply] at hclean ⊢
  cases hrun : x s with
  | ok a t =>
      rw [hrun] at hkeeps hclean
      exact (hf a).keeps ⟨hg, hresult a t hrun⟩ t hkeeps hclean
  | error error t =>
      rw [hrun] at hkeeps
      exact ⟨hkeeps, fun _ _ heq => by cases heq⟩

theorem discard (hx : Confined A given x yields) :
    Confined A given (discard x) fun _ => True :=
  .bind hx fun _ => .pure fun _ => trivial

/-! ### Parts that record nothing -/

variable {c : Setting Recording}

theorem check (checked : Except Limits.Excess Unit) :
    Confined A given (check checked) fun _ => True :=
  .of_still (fun _ => by cases checked <;> exact ⟨rfl, rfl⟩) fun _ _ _ _ _ _ => trivial

theorem leave : Confined A given leave fun _ => True :=
  .of_still (fun _ => ⟨rfl, rfl⟩) fun _ _ _ _ _ _ => trivial

theorem enter (fail : Fault → Error) (deeper : Option β) (name : Text) :
    Confined A given (enter c fail deeper name) fun _ => True := by
  refine .of_still (fun s => ?_) fun _ _ _ _ _ _ => trivial
  unfold endState
  rw [enter_apply]
  by_cases hactive : s.active.contains name = true
  · rw [if_pos hactive]
    exact ⟨rfl, rfl⟩
  · rw [if_neg hactive]
    cases c.limits.checkExpansions (s.expansions + 1) with
    | error excess => exact ⟨rfl, rfl⟩
    | ok u => cases deeper <;> exact ⟨rfl, rfl⟩

theorem enter_bind {P : α → Prop} {deeper : Option α} (hdeeper : ∀ next ∈ deeper, P next)
    {f : α → Scan Recording β} {yields : β → Prop}
    (hf : ∀ next, P next → Confined A given (f next) yields) (fail : Fault → Error)
    (name : Text) : Confined A given (Markup.enter c fail deeper name >>= f) yields := by
  cases deeper with
  | none =>
      -- the entrance fails, so what would come behind it does not matter
      rw [enter_none_bind _ _ _ f fun _ => MonadExcept.throw .endOfDtd]
      exact .bind (enter fail none name) fun _ => .throw _
  | some next =>
      rw [enter_some_bind c fail next]
      exact .bind (enter fail (some ()) name) fun _ =>
        (hf next (hdeeper next rfl)).mono And.left

end Confined

namespace Records

variable {c : Setting Recording} {given : Prop}

section Parts

variable (hc : Records A c)
include hc

theorem load (base : Option Location) (id : ExternalId) :
    Confined A given (load c base id) fun r => Text.Over A r.text := by
  refine .of_still (fun s => ?_) fun _ s _ r t hrun => ?_
  · unfold endState
    rw [load_eq]
    cases c.resolver.answer s.asked ⟨base, id⟩ <;> exact ⟨rfl, rfl⟩
  · exact hc.resolver (load_eq_ok hrun).1

/-- An event that is recorded, and remembered if it declares a parameter entity. -/
theorem report_define (base : Option Location) (e : Event) :
    Confined A (e.Over A) (do report c e; modify (State.define base e)) fun _ => True := by
  have hend (s : State Recording) : endState (do report c e; modify (State.define base e)) s =
      State.define base e
        { s with handled := { s.handled with events := s.handled.events.push e } } := by
    unfold endState
    rw [bind_apply, report_apply, hc.handler]
    rfl
  have hrecorded (s : State Recording) :
      (endState (do report c e; modify (State.define base e)) s).recorded =
        s.recorded ++ [e] := by
    rw [hend, State.recorded, handled_define, Array.toList_push]
    rfl
  refine ⟨fun s => ?_, fun he s hs hclean => ⟨⟨?_, ?_⟩, fun _ _ _ => trivial⟩⟩
  · rw [hrecorded]
    exact List.subset_append_left _ _
  · rw [hrecorded]
    exact List.forall_mem_append.2 ⟨hs.events, by simpa using he⟩
  · intro name r hr
    have hclean : e.Clean A := hclean e (by rw [hrecorded]; simp)
    rw [hend, lookup_define] at hr
    rcases Option.or_eq_some_iff.1 hr with hr | ⟨-, hr⟩
    · exact hs.replacements hr
    · exact over_of_replacement? hc.covers he hclean hr

theorem report {e : Event} (hremark : ∀ s : State Recording, State.define none e s = s) :
    Confined A (e.Over A) (report c e) fun _ => True := by
  have hrun : Confined A (e.Over A) (do Markup.report c e; modify id) fun _ => True := by
    have hdefine : State.define none e = id := funext hremark
    have hreport := hc.report_define none e
    rwa [hdefine] at hreport
  rwa [← bind_pure (Markup.report c e)]

/-! ### Expanding references -/

abbrev ExpandsDeeper (A : Char → Prop) (deeper : Option (Text → Scan Recording Text)) : Prop :=
  ∀ run ∈ deeper, ∀ t, Confined A (Text.Over A t) (run t) (Text.Over A)

theorem expandEntity {deeper : Option (Text → Scan Recording Text)}
    (hdeeper : ExpandsDeeper A deeper) (fail : Fault → Error) (name : Text) :
    Confined A True (expandEntity c fail deeper name) (OptionOver A) := by
  refine .bind .get fun s => ?_
  cases hlookup : s.entities.lookup name with
  | none => exact .pure fun _ => by simp [OptionOver]
  | some r =>
      refine .enter_bind hdeeper (fun run hrun => ?_) fail name
      have hexpanded (t : Text) : Confined A (Text.Over A t)
          (do let expanded ← run t; Markup.leave; return some expanded) (OptionOver A) :=
        .bind (hrun t) fun expanded => .bind .leave fun _ => .pure fun h => by
          simpa [OptionOver] using h.1.2
      cases r with
      | internal text => exact (hexpanded text).mono fun h => h.2.replacements hlookup
      | external id base =>
          exact .bind (hc.load base id) fun r => .bind (.pure And.right) fun t =>
            (hexpanded t).mono And.right

theorem expandPiece {replace : Text → Scan Recording (Option Text)}
    (hreplace : ∀ name, Confined A True (replace name) (OptionOver A)) (out : Buffer)
    (p : Piece) :
    Confined A (Text.Over A out.toText ∧ p.Over A) (expandPiece replace out p)
      fun out => Text.Over A out.toText := by
  have hspace : A ' ' := hc.covers.char (by decide)
  cases p with
  | char d => exact .pure fun ⟨hout, hd⟩ => by simpa using ⟨hout, hd⟩
  | reference name isQuoted =>
      refine .bind ((hreplace name).mono fun _ => trivial) fun o => ?_
      cases o with
      | none =>
          refine .pure fun ⟨⟨hout, hname⟩, _⟩ => ?_
          have hreference : Text.Over A (writeReference name) :=
            .append (hname.cons (hc.covers.char (by decide))) (hc.covers.text (by decide))
          simpa using ⟨hout, hreference⟩
      | some text =>
          refine .pure fun ⟨⟨hout, _⟩, htext⟩ => ?_
          have htext : Text.Over A text := htext text rfl
          cases isQuoted <;> simpa [hspace] using ⟨hout, htext⟩

theorem foldlM_expandPiece {replace : Text → Scan Recording (Option Text)}
    (hreplace : ∀ name, Confined A True (replace name) (OptionOver A)) (ps : List Piece)
    (out : Buffer) :
    Confined A (Text.Over A out.toText ∧ ∀ p ∈ ps, p.Over A)
      (ps.foldlM (Markup.expandPiece replace) out) fun out => Text.Over A out.toText := by
  induction ps generalizing out with
  | nil => exact .pure And.left
  | cons p ps ih =>
      have hfirst := (hc.expandPiece hreplace out p).mono
        fun (h : Text.Over A out.toText ∧ ∀ q ∈ p :: ps, q.Over A) =>
          ⟨h.1, h.2 p List.mem_cons_self⟩
      exact .bind hfirst fun out' => (ih out').mono fun h =>
        ⟨h.2, fun q hq => h.1.2 q (List.mem_cons_of_mem _ hq)⟩

theorem expandPieces {replace : Text → Scan Recording (Option Text)}
    (hreplace : ∀ name, Confined A True (replace name) (OptionOver A)) (inLiterals : Bool)
    (t : Text) :
    Confined A (Text.Over A t) (expandPieces c inLiterals replace t) (Text.Over A) :=
  .bind ((hc.foldlM_expandPiece hreplace _ _).mono fun ht =>
    ⟨Text.over_nil, over_of_mem_pieces inLiterals ht⟩)
    fun _ => .bind (.check _) fun _ => .pure fun h => h.1.2

theorem expand (fail : Fault → Error) (inLiterals : Bool) (level : Nat) (t : Text) :
    Confined A (Text.Over A t) (expand c fail inLiterals level t) (Text.Over A) := by
  induction level generalizing t with
  | zero => exact hc.expandPieces (hc.expandEntity (by simp [ExpandsDeeper]) fail) inLiterals t
  | succ level ih =>
      exact hc.expandPieces (hc.expandEntity (by simpa [ExpandsDeeper] using ih) fail)
        inLiterals t

/-! ### Items -/

theorem declare (fail : Fault → Error) (site : Site) (level : Nat) (kind : DeclarationKind)
    (body : Text) :
    Confined A (Text.Over A body) (declare c fail site level kind body) fun _ => True := by
  refine .bind (hc.expand fail (kind = .entity) level body) fun body => ?_
  cases hread : kind.read body with
  | error fault => exact .throw (fail fault)
  | ok e =>
      exact (hc.report_define site.location e).mono fun h =>
        DeclarationKind.over_of_read h.2 hread

abbrev ScansDeeper (A : Char → Prop) (deeper : Option (Site → Text → Scan Recording Unit)) :
    Prop :=
  ∀ run ∈ deeper, ∀ site t, Confined A (Text.Over A t) (run site t) fun _ => True

theorem scanEntity {deeper : Option (Site → Text → Scan Recording Unit)}
    (hdeeper : ScansDeeper A deeper) (fail : Fault → Error) (site : Site) (name : Text) :
    Confined A True (scanEntity c fail site deeper name) fun _ => True := by
  refine .bind .get fun s => ?_
  cases hlookup : s.entities.lookup name with
  | none => exact .pure fun _ => trivial
  | some r =>
      cases r with
      | internal text =>
          refine .enter_bind hdeeper (fun run hrun => ?_) fail name
          exact .bind ((hrun _ text).mono fun h => h.2.replacements hlookup) fun _ => .leave
      | external id base =>
          refine .enter_bind hdeeper (fun run hrun => ?_) fail name
          exact .bind (hc.load base id) fun r => .bind (.check _) fun _ =>
            .bind ((hrun _ r.text).mono fun h => h.1.2) fun _ => .leave

theorem sectionKeyword (fail : Fault → Error) (level : Nat) (keyword : SectionKeyword) :
    Confined A given (sectionKeyword c fail level keyword) fun _ => True := by
  cases keyword with
  | literal keyword => exact .pure fun _ => trivial
  | reference name =>
      unfold Markup.sectionKeyword
      have hentity {deeper : Option (Text → Scan Recording Text)}
          (hdeeper : ExpandsDeeper A deeper) :
          Confined A given (Markup.expandEntity c fail deeper name) (OptionOver A) :=
        (hc.expandEntity hdeeper fail name).mono fun _ => trivial
      refine .bind (hentity ?_) fun o => ?_
      · cases level with
        | zero => simp [ExpandsDeeper]
        | succ level => simpa [ExpandsDeeper] using hc.expand fail false level
      · cases o with
        | none => exact .throw _
        | some text => exact .pure fun _ => trivial

theorem scanItem {deeper : Option (Site → Text → Scan Recording Unit)}
    (hdeeper : ScansDeeper A deeper) (fail : Fault → Error) (site : Site) (level : Nat)
    (item : Item) :
    Confined A (item.Over A) (scanItem c fail site level deeper item) fun _ => True := by
  cases item with
  | comment text =>
      refine (hc.report fun _ => rfl).mono fun (h : Text.Over A text) => ?_
      simpa [Event.Over, Event.texts] using h
  | instruction target data =>
      refine (hc.report fun _ => rfl).mono fun ⟨htarget, hdata⟩ => ?_
      simpa [Event.Over, Event.texts] using ⟨htarget, hdata⟩
  | textDeclaration => exact .pure fun _ => trivial
  | declaration kind body => exact hc.declare fail site level kind body
  | reference name => exact (hc.scanEntity hdeeper fail site name).mono fun _ => trivial
  | sectionStart keyword start => exact .pure fun _ => trivial

/-! ### Texts -/

theorem scanStep {deeper : Option (Site → Text → Scan Recording Unit)}
    (hdeeper : ScansDeeper A deeper) {next : Nat → Text → Scan Recording Text} {t : Text}
    (hnext : ∀ opened rest, rest.length < t.length →
      Confined A (Text.Over A rest) (next opened rest) fun _ => True)
    (level : Nat) (stop : Stop) (site : Site) (opened : Nat) :
    Confined A (Text.Over A t) (scanStep c level deeper stop site next opened t)
      fun _ => True := by
  cases t with
  | nil =>
      unfold Markup.scanStep
      cases stop.faultAtEnd opened with
      | none => exact .pure fun _ => trivial
      | some fault => exact .throw _
  | cons d t =>
      unfold Markup.scanStep
      dsimp only
      by_cases hstop : stop.isAt opened d = true
      · simp only [hstop, if_true]
        exact .pure fun _ => trivial
      · simp only [hstop, Bool.false_eq_true, if_false]
        cases hend : sectionEnd? opened (d :: t) with
        | some rest =>
            exact (hnext _ rest (sectionEnd?_length hend)).mono fun ht =>
              over_of_sectionEnd? ht hend
        | none =>
          cases hitem : Item.read d t with
          | error f => exact .throw _
          | ok p =>
              obtain ⟨item, rest⟩ := p
              have hrest := Item.read_length hitem
              have hover (ht : Text.Over A (d :: t)) :=
                Item.over_of_read (Text.over_cons.1 ht).2 hitem
              cases item with
              | sectionStart keyword start =>
                  refine .bind (hc.sectionKeyword _ level keyword) fun keyword => ?_
                  cases hopen : openSection (d :: t) start keyword rest with
                  | error f => exact .throw _
                  | ok p =>
                      obtain ⟨kind, left⟩ := p
                      have hleft := openSection_length hopen
                      have hshorter : left.length < (d :: t).length := by
                        rw [List.length_cons]
                        omega
                      have hscan (opened : Nat) := (hnext opened left hshorter).mono
                        fun (h : Text.Over A (d :: t) ∧ True) =>
                          over_of_openSection (hover h.1).2 hopen
                      cases kind <;> exact hscan _
              | _ =>
                  refine .bind ((hc.scanItem hdeeper _ site level _).mono fun ht =>
                    (hover ht).1) fun _ => ?_
                  refine (hnext _ rest ?_).mono fun h => (hover h.1).2
                  rw [List.length_cons]
                  omega

theorem scanItems {deeper : Option (Site → Text → Scan Recording Unit)}
    (hdeeper : ScansDeeper A deeper) (level : Nat) (stop : Stop) (site : Site) (opened : Nat)
    (t : Text) :
    Confined A (Text.Over A t) (scanItems c level deeper stop site opened t)
      fun _ => True := by
  induction hn : t.length using Nat.strong_induction_on generalizing opened t with
  | _ n ih =>
      rw [scanItems_eq]
      refine (hc.scanStep hdeeper (fun opened rest hrest => ih _ ?_ opened rest rfl) level stop
        site opened).mono Text.Over.skipBlanks
      exact hn ▸ Nat.lt_of_lt_of_le hrest (Text.skipBlanks_suffix t).length_le

theorem scan (level : Nat) (stop : Stop) (site : Site) (t : Text) :
    Confined A (Text.Over A t) (scan c level stop site t) fun _ => True := by
  induction level generalizing stop site t with
  | zero => exact hc.scanItems (by simp [ScansDeeper]) 0 stop site 0 t
  | succ level ih =>
      have hdeeper : ScansDeeper A
          (some fun site t => discard (Markup.scan c level .textEnd site t)) := by
        intro run hrun site t
        cases hrun
        exact .discard (ih .textEnd site t)
      exact hc.scanItems hdeeper (level + 1) stop site 0 t

end Parts
end Records
end Markup

/-! ### Sources -/

namespace Source

open Markup

variable {A : Char → Prop} {α : Type} {given : Prop}

theorem confined_expect {yields : α → Prop} (site : Site) {result : Except Failure α}
    (h : given → ∀ a, result = .ok a → yields a) :
    Confined A given (expect site result) yields := by
  cases result with
  | ok a => exact .pure fun hg => h hg a rfl
  | error f => exact .throw _

section Scan

variable {c : Setting Recording} (hc : Records A c)
include hc

theorem confined_finish : Confined A given (finish c) fun _ => True := by
  refine .of_still (fun s => ?_) fun _ _ _ _ _ _ => trivial
  unfold endState finish
  rw [get_bind, hc.handler]
  exact ⟨rfl, rfl⟩

theorem confined_scanInternal (site : Site) (t : Text) :
    Confined A (Text.Over A t) (scanInternal c site t) fun _ => True := by
  unfold scanInternal
  split
  · next subset =>
    have hscan := (hc.scan c.limits.entityDepth .bracket site subset).mono
      fun (h : Text.Over A ('[' :: subset)) => (Text.over_cons.1 h).2
    exact .bind hscan fun rest => .pure fun _ => trivial
  · exact .pure fun _ => trivial

theorem confined_scanExternal (site : Site) (id : Option ExternalId) :
    Confined A given (scanExternal c site id) fun _ => True := by
  cases id with
  | none => exact .pure fun _ => trivial
  | some id =>
      exact .bind (hc.load site.location id) fun r =>
        .bind ((hc.scan _ .textEnd (.ofResource r) r.text).mono And.right) fun _ =>
          .pure fun _ => trivial

theorem confined_scanDtd (site : Site) (t : Text) :
    Confined A (Text.Over A t) (scanDtd c site t) fun _ => True := by
  exact .bind (.discard (hc.scan _ .textEnd site t)) fun _ => confined_finish hc

theorem confined_scanDocument (site : Site) (t : Text) :
    Confined A (Text.Over A t) (scanDocument c site t) fun _ => True := by
  have hprolog : Confined A (Text.Over A t) (expect site (readDoctype t)) fun p =>
      Text.Over A p.2 :=
    confined_expect site fun ht p hp => ht.of_suffix (readDoctype_suffix hp)
  refine .bind hprolog fun p => .bind ((confined_scanInternal hc site p.2).mono And.right)
    fun rest => ?_
  split
  · next left =>
    have hend {given : Prop} : Confined A given (expect site (skipMisc left)) fun _ => True :=
      confined_expect site fun _ _ _ => trivial
    refine .bind (confined_scanExternal hc site p.1) fun _ =>
        .bind (confined_finish hc) fun _ =>
      .bind hend fun left => ?_
    split
    · exact .throw .endOfDtd
    · exact .pure fun _ => trivial
  · exact .throw _

theorem confined_scan (s : Source) :
    Confined A (Text.Over A s.text) (s.scan c) fun _ => True := by
  refine .bind (.check _) fun _ => ?_
  cases s.kind with
  | dtd => exact (confined_scanDtd hc s.site s.body).mono fun h => h.1.of_suffix s.body_suffix
  | document =>
      exact (confined_scanDocument hc s.site s.body).mono fun h => h.1.of_suffix s.body_suffix

end Scan

theorem events_collect {s : Source} {resolver : Resolver} {limits : Limits} {log : Log}
    (h : s.collect resolver limits = .ok log) :
    log.events = (s.stateAtEnd resolver limits).recorded := by
  unfold collect at h
  rw [State.recorded, handled_stateAtEnd]
  dsimp only at h
  unfold Log.ofRun at h
  split at h <;> cases h <;> rfl

/-- The events of a source are over an alphabet that has the characters of its texts, and those
that references in the events denote. -/
theorem over_collect (hA : Covers A) {s : Source} {resolver : Resolver} {limits : Limits}
    {log : Log} (h : s.collect resolver limits = .ok log) (htext : Text.Over A s.text)
    (hresolver : ∀ {asked request r}, resolver.answer asked request = .ok r →
      Text.Over A r.text)
    (hclean : ∀ e ∈ log.events, e.Clean A) : ∀ e ∈ log.events, e.Over A := by
  have hstart : (State.start Recording.empty).Over A :=
    ⟨by simp [State.recorded, State.start, Recording.empty],
    fun hlookup => by simp [State.start] at hlookup⟩
  rw [events_collect h] at hclean ⊢
  have hscan :=
    confined_scan (c := ⟨Recording.handler, resolver, limits⟩) ⟨hA, rfl, hresolver⟩ s
  exact (hscan.keeps htext _ hstart hclean).1.events

end Source
end Doctype
