import Doctype.Proofs.Event.Replay
import Doctype.Proofs.Markup.Printing

/-!
Scanning what was printed. A text of printed events with blanks between them gives a handler
these events in their order and then their end (`outcome_scanItems`). As the text of a source
it does so too, with one exception: a processing instruction at its very beginning whose target
goes on behind `xml` with a name character that is white space is taken for a text declaration
and left out (`Source.run_printed`).
-/

namespace Doctype

open Markup

variable {σ : Type}

/-- Events as they are written, each behind its blanks, with more blanks at the end. -/
def printed : List (Text × Event) → Text → Text
  | [], last => last
  | (blanks, e) :: items, last => blanks ++ (e.print ++ printed items last)

/-- What must hold of an event with the blanks in front of it: it can be written, also where
line ends are made plain, and what a declaration holds is within the bound. -/
structure IsWritten (limits : Limits) (p : Text × Event) : Prop where
  isBlank : ∀ c ∈ p.1, isBlank c = true
  printable : p.2.Printable
  noReturn : '\r' ∉ p.2.print
  size : ∀ kind body, p.2.item = .declaration kind body →
    Text.size body ≤ limits.entityExpansionSize

namespace Markup

/-! ### One event -/

variable (c : Setting σ) (site : Site) (level : Nat)
  (deeper : Option (Site → Text → Scan σ Unit))

theorem expand_plain (fail : Fault → Error) {inLiterals : Bool} {t : Text}
    (hpieces : pieces inLiterals t = t.map .char)
    (hsize : Text.size t ≤ c.limits.entityExpansionSize) (s : State σ) :
    expand c fail inLiterals level t s = .ok t s := by
  have hplain (replace : Text → Scan σ (Option Text)) :
      expandPieces c inLiterals replace t s = .ok t s := by
    have htext : (Buffer.empty.append t).toText = t := by simp
    rw [← htext] at hsize
    have hrun := expandPieces_of_foldlM (hpieces ▸ foldlM_char replace t .empty s) hsize
    rwa [htext] at hrun
  cases level with
  | zero => exact hplain _
  | succ level => exact hplain _

/-- A declaration, comment or instruction that was written is given to the handler. -/
theorem scanItem_item (fail : Fault → Error) {e : Event} (he : e.Printable)
    (hsize : ∀ kind body, e.item = .declaration kind body →
      Text.size body ≤ c.limits.entityExpansionSize)
    (s : State σ) :
    scanItem c fail site level deeper e.item s = match c.handler.accept s.handled e with
      | .ok handled => .ok () (State.define site.location e { s with handled })
      | .error error => .error error s := by
  -- declarations of all kinds are scanned alike
  have hdeclare {name body : Text} (kind : DeclarationKind) (scope : Scope)
      (h : IsDeclared name body) (hscope : scope = .parameter → kind = .entity)
      (hsize : Text.size (inside scope name body) ≤ c.limits.entityExpansionSize) :
      declare c fail site level kind (inside scope name body) s =
        match c.handler.accept s.handled (kind.event scope name body) with
        | .ok handled =>
            .ok () (State.define site.location (kind.event scope name body) { s with handled })
        | .error error => .error error s := by
    rw [declare, bind_apply, expand_plain c level fail (pieces_inside h hscope) hsize]
    simp only [read_inside h hscope]
    rw [bind_apply, report_apply]
    cases c.handler.accept s.handled (kind.event scope name body) <;> rfl
  cases e with
  | element name body => exact hdeclare .element .general he (by simp) (hsize _ _ rfl)
  | attributeList owner body =>
      exact hdeclare .attributeList .general he (by simp) (hsize _ _ rfl)
  | entity scope name body => exact hdeclare .entity scope he (fun _ => rfl) (hsize _ _ rfl)
  | notationType name body =>
      exact hdeclare .notationType .general he (by simp) (hsize _ _ rfl)
  | comment text => exact report_apply c (.comment text) s
  | instruction target data => exact report_apply c (.instruction target data) s

/-! ### All events -/

/-- What a run that gives nothing back tells: the state of the handler, and how it ended. -/
def outcome (x : Scan σ Unit) (s : State σ) : σ × Except Error Unit :=
  match x s with
  | .ok () t => (t.handled, .ok ())
  | .error e t => (t.handled, .error e)

theorem outcome_finish (s : State σ) :
    outcome (Source.finish c) s = match c.handler.finish s.handled with
      | .ok handled => (handled, .ok ())
      | .error error => (s.handled, .error error) := by
  unfold outcome Source.finish
  rw [get_bind]
  cases c.handler.finish s.handled <;> rfl

theorem scanItems_item {e : Event} (he : e.Printable) {blanks : Text}
    (hblanks : ∀ d ∈ blanks, isBlank d = true) (rest : Text) :
    ∃ fail, scanItems c level deeper .textEnd site 0 (blanks ++ (e.print ++ rest)) = (do
      scanItem c fail site level deeper e.item
      scanItems c level deeper .textEnd site 0 rest) := by
  obtain ⟨t, hprint, hread⟩ := he.exists_read
  have hskip : Text.skipBlanks (blanks ++ (e.print ++ rest)) = '<' :: (t ++ rest) := by
    rw [hprint]
    exact Text.skipBlanks_append hblanks (by rfl)
  have hstop : Stop.isAt .textEnd 0 '<' = false := rfl
  have hend : sectionEnd? 0 ('<' :: (t ++ rest)) = none := rfl
  refine ⟨site.error ('<' :: (t ++ rest)), ?_⟩
  rw [scanItems_eq, hskip]
  simp only [scanStep, hstop, hend, hread rest, Bool.false_eq_true, if_false]
  cases e <;> rfl

/-- A text of printed events gives the handler these events, and then their end. -/
theorem outcome_scanItems {items : List (Text × Event)}
    (hitems : ∀ p ∈ items, IsWritten c.limits p) {last : Text}
      (hlast : ∀ d ∈ last, isBlank d = true) (count : Nat) (s : State σ) :
    outcome (do
        let _ ← scanItems c level deeper .textEnd site 0 (printed items last)
        Source.finish c) s =
      Stream.runFrom c.handler none count s.handled (items.map (·.2)) := by
  induction items generalizing count s with
  | nil =>
      have hskip : Text.skipBlanks last = [] := by
        simpa [Text.skipBlanks] using hlast
      have hscan : scanItems c level deeper .textEnd site 0 last = return [] := by
        rw [scanItems_eq, hskip]
        rfl
      rw [printed, hscan, pure_bind, outcome_finish]
      rfl
  | cons p items ih =>
      obtain ⟨hp, hitems⟩ := List.forall_mem_cons.1 hitems
      obtain ⟨fail, hstep⟩ :=
        scanItems_item c site level deeper hp.printable hp.isBlank (printed items last)
      have hitem := scanItem_item c site level deeper fail hp.printable hp.size s
      rw [printed, hstep, bind_assoc]
      unfold outcome at *
      rw [bind_apply, hitem]
      simp only [List.map_cons, Stream.runFrom, reduceCtorEq, if_false]
      -- a handler that refuses the event ends both, and otherwise both go on from what it
      -- gives
      cases haccept : c.handler.accept s.handled p.2 with
      | error error => rfl
      | ok handled =>
          have hnext :=
            ih hitems (count + 1) (State.define site.location p.2 { s with handled })
          rw [handled_define] at hnext
          exact hnext

theorem outcome_scanDtd {items : List (Text × Event)}
    (hitems : ∀ p ∈ items, IsWritten c.limits p) {last : Text}
    (hlast : ∀ d ∈ last, isBlank d = true) (s : State σ) :
    outcome (Source.scanDtd c site (printed items last)) s =
        Stream.runFrom c.handler none 0 s.handled (items.map (·.2)) := by
  have hitems (level : Nat) (deeper : Option (Site → Text → Scan σ Unit)) :=
    outcome_scanItems c site level deeper hitems hlast 0 s
  have hdiscard (x : Scan σ Text) :
      (do discard x; Source.finish c) = (do let _ ← x; Source.finish c) := by
    change (x >>= fun _ => pure ()) >>= (fun _ => Source.finish c) = _
    rw [bind_assoc]
    rfl
  rw [Source.scanDtd, hdiscard]
  cases c.limits.entityDepth with
  | zero => exact hitems 0 none
  | succ level => exact hitems (level + 1) _

end Markup

/-! ### What is taken for a text declaration -/

/-- Whether an event is taken for a text declaration where nothing stands in front of it.
Between its keyword and its data, which ends at the first question mark, a text declaration has
white space: there is one name character that is. -/
def Event.readsAsDeclaration : Event → Bool
  | instruction ('x' :: 'm' :: 'l' :: d :: _) data => d = '\u1680' && !data.contains '?'
  | _ => false

def reported : List (Text × Event) → List (Text × Event)
  | ([], e) :: items => if e.readsAsDeclaration then items else ([], e) :: items
  | items => items

theorem reported_cons_cons (d : Char) (blanks : Text) (e : Event)
    (items : List (Text × Event)) :
    reported ((d :: blanks, e) :: items) = (d :: blanks, e) :: items := rfl

theorem reported_suffix (items : List (Text × Event)) : reported items <:+ items := by
  unfold reported
  split
  · split
    · exact List.suffix_cons _ _
    · exact List.suffix_rfl
  · exact List.suffix_rfl

theorem afterDeclaration?_instruction {target data : Text}
    (h : (Event.instruction target data).Printable) (rest : Text) :
    Text.afterDeclaration? ((Event.instruction target data).print ++ rest) =
        if (Event.instruction target data).readsAsDeclaration then some rest else none := by
  obtain ⟨hname, htarget, hdata, -⟩ := h
  simp only [Event.print, List.cons_append, List.append_assoc]
  by_cases hxml : ∃ w, target = 'x' :: 'm' :: 'l' :: w
  · obtain ⟨w, rfl⟩ := hxml
    cases w with
    | nil => cases htarget
    | cons d w => exact Text.afterDeclaration?_xml hname hdata rest
  · have hnone : Text.dropPrefix? "<?xml"
        ('<' :: '?' :: (target ++ ' ' :: (data ++ ("?>".toList ++ rest)))) = none := by
      cases hdrop : Text.dropPrefix? "<?xml"
          ('<' :: '?' :: (target ++ ' ' :: (data ++ ("?>".toList ++ rest)))) with
      | none => rfl
      | some u => exact (hxml (Text.exists_of_dropPrefix?_xml hdrop)).elim
    have hreads : (Event.instruction target data).readsAsDeclaration = false := by
      unfold Event.readsAsDeclaration
      split
      · next heq =>
        cases heq
        exact (hxml ⟨_, rfl⟩).elim
      · rfl
    rw [Text.afterDeclaration?_of_dropPrefix? hnone, hreads]
    rfl

section Printed

variable {limits : Limits} {items : List (Text × Event)} {last : Text}

theorem head?_print (e : Event) (rest : Text) : (e.print ++ rest).head? = some '<' := by
  cases e <;> rfl

/-- Printed events lose nothing but what is taken for a text declaration. -/
theorem dropDeclaration_printed (hitems : ∀ p ∈ items, IsWritten limits p)
    (hlast : ∀ d ∈ last, isBlank d = true) :
    Text.dropDeclaration (printed items last) = printed (reported items) last := by
  cases items with
  | nil => exact Text.dropDeclaration_of_isBlank fun d hd => hlast d (List.mem_of_mem_head? hd)
  | cons p items =>
      obtain ⟨blanks, e⟩ := p
      have hp := hitems _ List.mem_cons_self
      cases blanks with
      | cons d blanks =>
          rw [reported_cons_cons]
          refine Text.dropDeclaration_of_isBlank fun b hb => ?_
          simp only [printed, List.cons_append, List.head?_cons, Option.mem_def,
            Option.some.injEq] at hb
          exact hb ▸ hp.isBlank d List.mem_cons_self
      | nil =>
          rw [printed, List.nil_append]
          have hmark : (e.print ++ printed items last).head? ≠ some '\uFEFF' := by
            rw [head?_print]
            decide
          cases e with
          | instruction target data =>
              rw [Text.dropDeclaration, Text.dropByteOrderMark_of_head? hmark,
                afterDeclaration?_instruction hp.printable, reported]
              cases (Event.instruction target data).readsAsDeclaration <;> rfl
          | _ => exact Text.dropDeclaration_of_dropPrefix? hmark rfl

/-! ### Line ends -/

def plain (p : Text × Event) : Text × Event :=
  (Text.normalizeLineEndings p.1, p.2)

theorem isBlank_of_mem_normalizeLineEndings {t : Text} (h : ∀ d ∈ t, isBlank d = true) :
    ∀ d ∈ Text.normalizeLineEndings t, isBlank d = true := by
  intro d hd
  rcases Text.mem_or_eq_of_mem_normalizeLineEndings hd with hmem | rfl
  · exact h d hmem
  · decide

theorem IsWritten.plain {p : Text × Event} (h : IsWritten limits p) :
    IsWritten limits (plain p) :=
  ⟨isBlank_of_mem_normalizeLineEndings h.isBlank, h.printable, h.noReturn, h.size⟩

theorem normalizeLineEndings_printed (hitems : ∀ p ∈ items, IsWritten limits p) (last : Text) :
    Text.normalizeLineEndings (printed items last) =
      printed (items.map plain) (Text.normalizeLineEndings last) := by
  induction items with
  | nil => rfl
  | cons p items ih =>
      obtain ⟨hp, hitems⟩ := List.forall_mem_cons.1 hitems
      have hfirst : ∀ u, p.2.print ++ printed items last ≠ '\n' :: u := by
        intro u hu
        have hhead := head?_print p.2 (printed items last)
        rw [hu] at hhead
        cases hhead
      rw [printed, Text.normalizeLineEndings_append p.1 hfirst,
        Text.normalizeLineEndings_append_of_notMem hp.noReturn, ih hitems]
      rfl

theorem map_reported_plain (items : List (Text × Event)) :
    (reported (items.map plain)).map (·.2) = (reported items).map (·.2) := by
  have hplain (items : List (Text × Event)) : (items.map plain).map (·.2) =
      items.map (·.2) := by
    rw [List.map_map]
    rfl
  cases items with
  | nil => rfl
  | cons p items =>
      obtain ⟨blanks, e⟩ := p
      cases blanks with
      | nil =>
          have hfirst : plain ([], e) = ([], e) := rfl
          rw [List.map_cons, hfirst, reported, reported]
          cases e.readsAsDeclaration <;> simp [hplain]
      | cons d blanks =>
          obtain ⟨b, u, hblanks⟩ := List.exists_cons_of_ne_nil
            (mt (Text.normalizeLineEndings_eq_nil_iff (d :: blanks)).1
              (List.cons_ne_nil d blanks))
          have hfirst : plain (d :: blanks, e) = (b :: u, e) := by rw [plain, hblanks]
          rw [List.map_cons, hfirst, reported_cons_cons, reported_cons_cons,
            List.map_cons, hplain]
          rfl

end Printed

theorem Stream.runFrom_recording (events : List Event) (count : Nat) (r : Recording) :
    Stream.runFrom Recording.handler none count r events =
      (⟨r.events ++ events.toArray, true⟩, .ok ()) := by
  rw [Stream.runFrom_none, Handler.heed_recording]
  simp [Stream.ending]

namespace Source

/-- A source of printed events whose text has the right size gives any handler these events,
but one that is taken for a text declaration, and then their end; so all of them are
recorded. -/
theorem run_printed (resolver : Resolver) {limits : Limits} {items : List (Text × Event)}
    {last : Text} (hitems : ∀ p ∈ items, IsWritten limits p)
    (hlast : ∀ d ∈ last, isBlank d = true)
    (hsize : Text.size (Source.ofText .dtd (printed items last)).text ≤ limits.dtdSize) :
    (∀ (σ : Type) (h : Handler σ) (handled : σ),
      (Source.ofText .dtd (printed items last)).run resolver limits h handled =
        Stream.run ⟨(reported items).map (·.2), none⟩ h handled) ∧
      (Source.ofText .dtd (printed items last)).run resolver limits Recording.handler .empty =
        (⟨((reported items).map (·.2)).toArray, true⟩, .ok ()) := by
  have hplain : ∀ p ∈ items.map plain, IsWritten limits p := by
    intro p hp
    obtain ⟨q, hq, rfl⟩ := List.mem_map.1 hp
    exact (hitems q hq).plain
  have hblank := isBlank_of_mem_normalizeLineEndings hlast
  have hbody : (Source.ofText .dtd (printed items last)).body =
      printed (reported (items.map plain)) (Text.normalizeLineEndings last) := by
    rw [← dropDeclaration_printed hplain hblank, ← normalizeLineEndings_printed hitems]
    rfl
  have hrun (σ : Type) (h : Handler σ) (handled : σ) :
      (Source.ofText .dtd (printed items last)).run resolver limits h handled =
        Stream.run ⟨(reported items).map (·.2), none⟩ h handled := by
    have hscan :=
      outcome_scanDtd ⟨h, resolver, limits⟩ (Source.ofText .dtd (printed items last)).site
      (fun p hp => hplain p ((reported_suffix _).mem hp)) hblank (.start handled)
    rw [map_reported_plain] at hscan
    have hcheck : limits.checkDtdSize
        (Text.size (Source.ofText .dtd (printed items last)).text) = .ok () := by
      simp [Limits.checkDtdSize, Limits.atMost, hsize]
    calc
      _ = outcome (Source.scan (Source.ofText .dtd (printed items last)) ⟨h, resolver, limits⟩)
        (.start handled) :=
        rfl
      _ = _ := by
        rw [scan, hcheck, hbody]
        exact hscan
  refine ⟨hrun, ?_⟩
  rw [hrun]
  exact (Stream.runFrom_recording _ 0 .empty).trans (by simp [Recording.empty])

/-- Three events of different kinds, with a `>` in a literal and a dash in front of the end of
a comment. -/
def threeEvents : List (Text × Event) :=
  [("\r\n", .entity .parameter ['p'] "'>'"), ([], .comment "a-"),
    (" ", .instruction "xmlx" "d")]

theorem isWritten_threeEvents : ∀ p ∈ threeEvents, IsWritten .standard p := by
  have hclosed : Text.IsClosed ('\'' :: (['>'] ++ '\'' :: [])) :=
    .literal (by decide) (by decide) .nil
  have hentity : Event.Printable (.entity .parameter ['p'] "'>'") :=
    ⟨by decide, by decide, hclosed, by decide⟩
  have hcomment : Event.Printable (.comment "a-") := fun h => absurd h.length_le (by decide)
  have hinstruction : Event.Printable (.instruction "xmlx" "d") :=
    ⟨by decide, by decide, fun h => absurd h.length_le (by decide), by decide⟩
  simp only [threeEvents, List.forall_mem_cons]
  refine ⟨⟨by simp [isBlank], hentity, by decide, ?_⟩, ⟨by simp, hcomment, by decide, ?_⟩,
    ⟨by simp [isBlank], hinstruction, by decide, ?_⟩, by simp⟩
  · rintro kind body ⟨⟩
    decide
  · rintro kind body ⟨⟩
  · rintro kind body ⟨⟩

/-- The theorem applies where line ends are not plain. -/
theorem run_printed_threeEvents :
    (∀ p ∈ threeEvents, IsWritten .standard p) ∧
      printed threeEvents "\r" = "\r\n<!ENTITY % p '>'><!--a---> <?xmlx d?>\r".toList ∧
      (Source.ofText .dtd (printed threeEvents "\r")).run (.ofCatalog []) .standard
        Recording.handler .empty =
        (⟨#[.entity .parameter ['p'] "'>'", .comment "a-", .instruction "xmlx" "d"], true⟩,
          .ok ()) := by
  have hsize : Text.size (Source.ofText .dtd (printed threeEvents "\r")).text ≤
      Limits.standard.dtdSize := by
    decide +kernel
  have hlast : ∀ d ∈ "\r".toList, isBlank d = true := by simp [isBlank]
  obtain ⟨-, hrun⟩ := run_printed (.ofCatalog []) isWritten_threeEvents hlast hsize
  exact ⟨isWritten_threeEvents, by decide, hrun⟩

/-- The target is a name and not `xml`, and yet the instruction is taken for a text
declaration: no event is reported. -/
theorem collect_oghamTarget :
    let e := Event.instruction "xml\u1680" "d"
    e.Printable ∧ IsWritten .standard ([], e) ∧
      printed [([], e)] [] = "<?xml\u1680 d?>".toList ∧
      (Source.collect (.ofText .dtd (printed [([], e)] [])) (.ofCatalog [])
        .standard).toOption.map Log.events = some [] := by
  intro e
  have he : e.Printable :=
    ⟨by decide, by decide, fun h => absurd h.length_le (by decide), by decide⟩
  refine ⟨he, ⟨by simp, he, by decide, ?_⟩, by decide, by decide +kernel⟩
  rintro kind body ⟨⟩

end Source
end Doctype
