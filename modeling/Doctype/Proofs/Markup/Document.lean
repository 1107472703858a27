import Doctype.Proofs.Markup.Binding
import Doctype.Proofs.Markup.Prolog
import Doctype.Proofs.Markup.Splicing

/-!
Documents. A document whose internal subset is scanned on its own is scanned as this subset and
then, from the state that it leaves, as the external one (`scanDocument_prolog`); the names
that the internal subset gave a meaning keep it (`remembers_scan`). Then the handler is told
once that there are no more events, and what is behind the declaration decides only whether the
end of the document type is announced as an error (`scan_document`).
-/

namespace Doctype

open Markup
open Attribute.Grammar (Gap Space)
open Text (skipBlanks skipBlanks_append)

variable {σ : Type} {c : Setting σ} {site siteI : Site} {level : Nat} {t i p r rest : Text}
  {s sI : State σ}

namespace Markup

def Remembers (s t : State σ) : Prop :=
  ∀ name r, s.entities.lookup name = some r → t.entities.lookup name = some r

theorem interrupts_remembers (c : Setting σ) :
    Interrupts c c.handler (fun _ => False) Remembers where
  accept_eq _ _ := .inl rfl
  finish_eq := rfl
  trans h h' name r hr := h' name r (h name r hr)
  still _ hentities name r hr := by rwa [hentities]
  event _ name r hr := by rw [lookup_define, hr]; rfl
  finish _ _ _ hr := hr

theorem remembers_scan (c : Setting σ) (level : Nat) (stop : Stop) (site : Site) (t : Text)
    (s : State σ) : Remembers s (endState (scan c level stop site t) s) := by
  have hplan := ((interrupts_remembers c).plan (.scan level stop site t)).endState s
  rwa [Plan.run_scan] at hplan

theorem discard_apply {α : Type} (x : Scan σ α) (s : State σ) :
    discard x s = match x s with
      | .ok _ t => .ok () t
      | .error error t => .error error t := by
  show (x >>= fun _ => pure ()) s = _
  rw [bind_apply]
  cases x s <;> rfl

theorem discard_bind_apply {α β : Type} (x : Scan σ α) (y : Scan σ β) (s : State σ) :
    (do discard x; y) s = match x s with
      | .ok _ t => y t
      | .error error t => .error error t := by
  rw [bind_apply, discard_apply]
  cases x s <;> rfl

theorem scan_nil (c : Setting σ) (level : Nat) (site : Site) (s : State σ) :
    scan c level .textEnd site [] s = .ok [] s := by
  rw [scan_eq_scanItems, scanItems_eq]
  rfl

end Markup

namespace Source

/-! ### The subsets -/

/-- `External c asked base id e new`: the external subset of a document at `base` is the text
of `e`, for which the requests `new` are made after those of `asked`. Without an identifier it
is empty. -/
inductive External (c : Setting σ) (asked : List Request) (base : Option Location) :
    Option ExternalId → Resource → List Request → Prop
  | absent {e : Resource} : e.text = [] → External c asked base none e []
  | found {id : ExternalId} {e : Resource} :
      c.resolver.answer asked ⟨base, id⟩ = .ok e →
      External c asked base (some id) e [⟨base, id⟩]

/-- An internal subset that is scanned on its own is scanned so in its place. -/
theorem scanInternal_append (hp : InternalPart p i) (hsite : siteI.location = site.location)
    (hi : Markup.scan c c.limits.entityDepth .textEnd siteI i s = .ok r sI) (rest : Text) :
    scanInternal c site (p ++ '>' :: rest) s = .ok ('>' :: rest) sI := by
  cases hp with
  | absent =>
      rw [scan_nil] at hi
      cases hi
      rfl
  | @present _ b hb =>
      have hskip : skipBlanks (b ++ '>' :: rest) = '>' :: rest := skipBlanks_append hb rfl
      have hstop : Markup.scan c c.limits.entityDepth .bracket site
          (i ++ ']' :: (b ++ '>' :: rest)) s = .ok (']' :: (b ++ '>' :: rest)) sI := by
        rw [scan_eq_scanItems] at hi ⊢
        have happend := scanItems_append hsite.symm hi .bracket 0 (']' :: (b ++ '>' :: rest))
        rw [Nat.add_zero] at happend
        rw [happend, scanItems_eq]
        rfl
      have htext : '[' :: (i ++ ']' :: b) ++ '>' :: rest =
        '[' :: (i ++ ']' :: (b ++ '>' :: rest)) := by simp
      rw [htext]
      simp only [scanInternal, bind_apply, hstop, List.drop_succ_cons, List.drop_zero, hskip]
      rfl

theorem scanExternal_external {id : Option ExternalId} {e : Resource} {new : List Request}
    (he : External c s.asked site.location id e new) :
    scanExternal c site id s =
      discard (Markup.scan c c.limits.entityDepth .textEnd (.ofResource e) e.text)
        { s with asked := s.asked ++ new } := by
  cases he with
  | absent hempty =>
      rw [List.append_nil, hempty, discard_apply, scan_nil]
      rfl
  | found hanswer =>
      simp only [scanExternal]
      rw [bind_apply, load_eq, hanswer]

/-! ### Documents -/

theorem head?_prolog {d : Text} {id : Option ExternalId} (hd : Prolog d id i) (rest : Text) :
    (d ++ rest).head? ≠ some '\uFEFF' := by
  cases hd with
  | mk hm _ _ _ _ _ =>
      cases hm with
      | nil => exact fun hhead => by cases hhead
      | @blank a m ha _ =>
          intro hhead
          cases hhead
          cases ha
      | comment _ _ => exact fun hhead => by cases hhead
      | instruction _ _ => exact fun hhead => by cases hhead

def conclude (c : Setting σ) (site : Site) (rest : Text) : Scan σ Unit := do
  finish c
  let left ← expect site (skipMisc rest)
  if !left.isEmpty then throw .endOfDtd

/-- A document is scanned as its internal subset, and then as its external one. -/
theorem scanDocument_prolog {d : Text} {id : Option ExternalId} {e : Resource}
    {new : List Request} (hd : Prolog d id i) (hsite : siteI.location = site.location)
    (hi : Markup.scan c c.limits.entityDepth .textEnd siteI i s = .ok r sI)
    (he : External c sI.asked site.location id e new) (rest : Text) :
    scanDocument c site (d ++ rest) s =
      (do
        discard (Markup.scan c c.limits.entityDepth .textEnd (.ofResource e) e.text)
        conclude c site rest) { sI with asked := sI.asked ++ new } := by
  cases hd with
  | @mk m b root x g p _ _ hm hb hroot hx hg hp =>
      have hread := readDoctype_append hm hb hroot hx hg (hp.delimited rest)
      have hdoctype : readDoctype
          (m ++ ("<!DOCTYPE".toList ++ (b ++ (root ++ (x ++ (g ++ (p ++ ['>'])))))) ++ rest) =
          .ok (id, p ++ '>' :: rest) := by
        rw [← hread]
        simp
      have hinternal := scanInternal_append hp hsite hi rest
      rw [scanDocument, hdoctype, bind_apply]
      show (scanInternal c site (p ++ '>' :: rest) >>= _) s = _
      rw [bind_apply, hinternal]
      show (scanExternal c site id >>= fun _ => conclude c site rest) sI = _
      rw [bind_apply, scanExternal_external he, bind_apply]

theorem conclude_eq (c : Setting σ) (site : Site) (rest : Text) (s : State σ) :
    conclude c site rest s =
      match c.handler.finish s.handled with
      | .error error => .error error s
      | .ok handled =>
        match skipMisc rest with
        | .error f => .error (site.error f.rest f.fault) { s with handled }
        | .ok left =>
          if left.isEmpty then .ok () { s with handled }
          else .error .endOfDtd { s with handled } := by
  rw [conclude, bind_apply, finish_apply]
  cases c.handler.finish s.handled with
  | error error => rfl
  | ok handled =>
      dsimp only
      rw [bind_apply]
      cases skipMisc rest with
      | error f => rfl
      | ok left => cases left <;> rfl

/-- Once the handler is told, what is left of the document decides only on the result. -/
theorem conclude_apply (c : Setting σ) (site : Site) (rest : Text) (s : State σ) :
    match c.handler.finish s.handled with
    | .error error => conclude c site rest s = .error error s
    | .ok handled =>
      endState (conclude c site rest) s = { s with handled } ∧
        (Misc rest → conclude c site rest s = .ok () { s with handled }) ∧
        ∀ m t, rest = m ++ t → Misc m → Significant t → t ≠ [] →
          conclude c site rest s = .error .endOfDtd { s with handled } := by
  have heq := conclude_eq c site rest s
  cases hfinish : c.handler.finish s.handled with
  | error error =>
      rw [hfinish] at heq
      exact heq
  | ok handled =>
      rw [hfinish] at heq
      refine ⟨?_, fun hrest => ?_, fun m t hrest hm ht hne => ?_⟩
      · unfold endState
        rw [heq]
        cases skipMisc rest with
        | error f => rfl
        | ok left => cases left <;> rfl
      · rw [heq, skipMisc_misc hrest]
        rfl
      · rw [heq, hrest, skipMisc_append hm, skipMisc_significant ht]
        obtain ⟨d, t, rfl⟩ := List.exists_cons_of_ne_nil hne
        rfl

/-- A document within the bound on its size whose internal subset can be scanned on its own,
and whose external subset the resolver finds: the handler is told what it is told by a scan of
the internal subset and, from the state that this leaves, of the external one, where the names
that have a meaning keep it. If that fails, so does the document, in the same state. Otherwise
the handler is told once that there are no more events, and nothing else. The document then
ends well if only blanks, comments and processing instructions are behind its declaration, and
with the end of the document type as an error if anything else is behind these. -/
theorem scan_document {source : Source} {handled : σ} {d : Text} {id : Option ExternalId}
    {e : Resource} {new : List Request}
    (hkind : source.kind = .document) (htext : source.text = d ++ rest) (hd : Prolog d id i)
    (hsize : Text.size source.text ≤ c.limits.dtdSize)
    (hsite : siteI.location = source.location)
    (hi : Markup.scan c c.limits.entityDepth .textEnd siteI i (.start handled) = .ok r sI)
    (he : External c sI.asked source.location id e new) :
    let external := Markup.scan c c.limits.entityDepth .textEnd (.ofResource e) e.text
    let start := { sI with asked := sI.asked ++ new }
    (∀ name r, sI.entities.lookup name = some r →
      (endState external start).entities.lookup name = some r) ∧
      match external start with
      | .error error s => source.scan c (.start handled) = .error error s
      | .ok _ s =>
        match c.handler.finish s.handled with
        | .error error => source.scan c (.start handled) = .error error s
        | .ok handled' =>
          endState (source.scan c) (.start handled) = { s with handled := handled' } ∧
            (Misc rest → source.scan c (.start handled) =
              .ok () { s with handled := handled' }) ∧
            ∀ m t, rest = m ++ t → Misc m → Significant t → t ≠ [] →
              source.scan c (.start handled) =
                .error .endOfDtd { s with handled := handled' } := by
  intro external start
  refine ⟨remembers_scan c _ .textEnd _ _ start, ?_⟩
  have hbody : source.body = d ++ rest := by
    rw [body, hkind, htext]
    exact Text.dropByteOrderMark_of_head? (head?_prolog hd rest)
  have hrun : source.scan c (.start handled) =
      (do discard external; conclude c source.site rest) start := by
    rw [scan, hkind, hbody]
    have hcheck : c.limits.checkDtdSize (Text.size source.text) = .ok () := if_pos hsize
    rw [bind_apply, hcheck]
    exact scanDocument_prolog hd hsite hi he rest
  rw [discard_bind_apply] at hrun
  cases hexternal : external start with
  | error error s =>
      rw [hexternal] at hrun
      exact hrun
  | ok _ s =>
      rw [hexternal] at hrun
      have hconclude := conclude_apply c source.site rest s
      unfold endState at hconclude ⊢
      rw [hrun]
      exact hconclude

/-- A name that both subsets declare, and content behind the declaration. -/
theorem scan_document_bothSubsets :
    let i : Text := "<!ENTITY % a '<?first?>'>"
    let c : Setting Recording :=
      ⟨Recording.handler, .ofCatalog [("/x", "<!ENTITY % a '<?second?>'>%a;")], .standard⟩
    let d : Text :=
      "<?xml version='1.0'?><!-- m -->\n<!DOCTYPE r SYSTEM '/x' [" ++ (i ++ "] >".toList)
    let rest : Text := " <!-- t --><r/>"
    Prolog d (some ⟨none, some "/x"⟩) i ∧
      ∃ s, Source.scan ⟨.document, d ++ rest, none⟩ c (.start .empty) = .error .endOfDtd s ∧
        s.handled.isFinished = true ∧ s.handled.events.toList =
          [.entity .parameter "a" "'<?first?>'", .entity .parameter "a" "'<?second?>'",
            .instruction "first" []] := by
  intro i c d rest
  let id : ExternalId := ⟨none, some "/x"⟩
  let e : Resource := ⟨.path "/x", "<!ENTITY % a '<?second?>'>%a;"⟩
  have hd : Prolog d (some ⟨none, some "/x"⟩) i := by
    have hm : Misc ("<?".toList ++ ("xml version='1.0'".toList ++ ("?>".toList ++
        ("<!--".toList ++ (" m ".toList ++ ("-->".toList ++ ['\n'])))))) :=
      .instruction (by decide) (.comment (by decide) (.blank rfl .nil))
    have hspace : Space [' '] := Attribute.Grammar.space_singleton
    have hid : ExternalId.Written false
        ("SYSTEM".toList ++ [' '] ++ '\'' :: ("/x".toList ++ ['\''])) ⟨none, some "/x"⟩ :=
      .system hspace (.single (by decide))
    have hroot : Text.isName "r".toList = true := by decide
    have hinternal : InternalPart ('[' :: (i ++ ']' :: [' '])) i := .present hspace.2
    have hprolog := Prolog.mk hm hspace hroot (.present hspace hid) hspace.2 hinternal
    exact hprolog
  refine ⟨hd, ?_⟩
  have hview : seen (fun _ s => seen (fun _ s => s.handled.events.toList)
        (Markup.scan c c.limits.entityDepth .textEnd (.ofResource e) e.text
          { s with asked := s.asked ++ [⟨none, id⟩] }))
      (Markup.scan c c.limits.entityDepth .textEnd ⟨[], none, 0⟩ i (.start .empty)) =
        .ok (.ok [.entity .parameter "a" "'<?first?>'", .entity .parameter "a" "'<?second?>'",
          .instruction "first" []]) := by
    decide +kernel
  obtain ⟨r, sI, hi, hview⟩ := exists_of_seen_eq_ok hview
  obtain ⟨_, s, hexternal, hevents⟩ := exists_of_seen_eq_ok hview
  have he : External c sI.asked none (some id) e [⟨none, id⟩] := by
    have hlocation : Location.resolveAt none "/x" = .ok (.path "/x") := by decide +kernel
    refine .found ?_
    show (Location.resolveAt none "/x" >>= _) = _
    rw [hlocation]
    rfl
  let source : Source := ⟨.document, d ++ rest, none⟩
  have htext : source.text = d ++ rest := rfl
  have hsize : Text.size source.text ≤ c.limits.dtdSize := by decide +kernel
  obtain ⟨-, hrun⟩ := scan_document rfl htext hd hsize rfl hi he
  rw [hexternal] at hrun
  obtain ⟨-, -, hends⟩ := hrun
  have hcontent : rest = " <!-- t -->".toList ++ "<r/>".toList := by decide
  have hm : Misc " <!-- t -->".toList := .blank rfl (.comment (u := " t ") (by decide) .nil)
  exact ⟨_, hends _ _ hcontent hm ⟨rfl, rfl, rfl⟩ (by decide), rfl, hevents⟩

end Source
end Doctype
