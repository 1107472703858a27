import Doctype.Proofs.Markup.Scanner
import Doctype.Proofs.Markup.Splicing

/-!
Where the scanner by byte offsets leads to: from an offset on, to where the scan of what is
left at the offset does (`leads_scanAt`), with every call in it smaller. The induction is on
the levels that are left for entities, and at the same level on what is left of the text.
-/

namespace Doctype.Markup

open Text (offset)

variable {σ : Type} {c : Setting σ} {call : Spot → Attempt σ Nat} {ctx : Context} {site : Site}
  {stop : Stop} {text rest left behind start name v t : Text} {d : Char} {level opened : Nat}
    {s u : State σ}

/-! ### Items -/

theorem Context.errorAt_offset (h : rest <:+ text) (ctx : Context) (fault : Fault) :
    ctx.errorAt text (offset text rest) fault = (ctx.site text).error rest fault := by
  rw [errorAt, Text.lineBreaksBefore_offset h, Site.error, site]

theorem leads_keywordTextAt (c : Setting σ) (fail : Fault → Error) (keyword : SectionKeyword)
    (s : State σ) :
    Leads (Returns Eq) s.active (keywordTextAt c fail keyword s)
      (sectionKeyword c fail (levelAt c s) keyword s) := by
  cases keyword with
  | literal keyword => exact .of_pure rfl rfl
  | reference name =>
      have hreplace := leads_replacementAt c fail false name s
      rw [keywordTextAt]
      unfold sectionKeyword
      generalize levelAt c s = level at hreplace ⊢
      cases level
      all_goals
        refine .seq hreplace fun a b t hab ht => ?_
        subst hab
        cases a with
        | some replacement => exact .of_pure rfl ht
        | none => exact .throw _ t

theorem active_define (base : Option Location) (e : Event) (s : State σ) :
    (s.define base e).active = s.active := by
  unfold State.define
  split
  · split <;> rfl
  · rfl

theorem active_of_report {e : Event} {u : Unit} {t : State σ} (h : report c e s = .ok u t) :
    t.active = s.active := by
  rw [report_apply] at h
  split at h <;> cases h
  rfl

theorem leads_declareAt (c : Setting σ) (ctx : Context) (text : Text) (fail : Fault → Error)
    (kind : DeclarationKind) (body : Text) (s : State σ) :
    Leads (Returns Eq) s.active (declareAt c ctx fail kind body s)
      (declare c fail (ctx.site text) (levelAt c s) kind body s) := by
  rw [declareAt, declare]
  refine .seq (leads_expandAt c fail (kind = .entity) body s) fun a b t hab ht => ?_
  obtain ⟨rfl, -⟩ := hab
  rw [eventAt_eq]
  cases hread : kind.read a with
  | error fault => exact .throw _ t
  | ok e =>
      rw [readOrFail_ok_bind]
      refine .perform_seq fun _ u hreport => .of_perform fun _ w hdefine => ?_
      cases hdefine
      rw [active_define, active_of_report hreport, ht]

/-- The texts of entities that are met with `level` levels to go are scanned as in a scan. -/
def EntitiesLead (c : Setting σ) (call : Spot → Attempt σ Nat) (level : Nat) : Prop :=
  ∀ (ctx : Context) (text : Text) (t : State σ), levelAt c t + 1 = level →
    Leads (Returns fun pos left => pos = offset text left) t.active (call (.start ctx text) t)
      (scan c (levelAt c t) .textEnd (ctx.site text) text t)

theorem leads_inside (hentity : EntitiesLead c call (level + 1)) (inner : Context)
    (text : Text) {active : List Text} (hlevel : levelAt c s = level)
    (hactive : s.active = active ++ [name]) :
    Leads (Returns Eq) active ((call (.start inner text) >>= fun _ => perform leave) s)
      ((discard (scan c level .textEnd (inner.site text) text) >>= fun _ => leave) s) := by
  have hdiscard : (discard (scan c level .textEnd (inner.site text) text) >>= fun _ => leave) =
      scan c level .textEnd (inner.site text) text >>= fun _ => leave := by
    rw [Functor.discard, map_const, Function.comp_apply, bind_map_left]
  have htext := hentity inner text s (by rw [hlevel])
  rw [hlevel] at htext
  rw [hdiscard]
  refine .seq htext fun _ _ t _ ht => .of_perform fun _ u hleave => ?_
  cases hleave
  change t.active.dropLast = active
  rw [ht, hactive, List.dropLast_concat]

/-- An entity is scanned as in a scan, if texts are scanned as there where it is active. -/
theorem leads_scanEntityAt (hentity : EntitiesLead c call (levelAt c s)) (ctx : Context)
    (text : Text) (fail : Fault → Error) (name : Text) :
    Leads (Returns Eq) s.active (scanEntityAt c call ctx fail name s)
      (scanEntity c fail (ctx.site text) (scanBelow c (levelAt c s)) name s) := by
  have hbelow : scanBelow c (levelAt c s) =
      below (fun level site t => discard (scan c level .textEnd site t)) (levelAt c s) := by
    cases levelAt c s <;> rfl
  rw [scanEntityAt, scanEntity, hbelow]
  refine .perform_seq fun s' t hget => ?_
  cases hget
  cases hlookup : s.entities.lookup name with
  | none => exact .of_pure rfl rfl
  | some r =>
      cases r with
      | internal value =>
          dsimp only
          refine leads_enter fun level t hlevel ht hactive => ?_
          rw [hlevel] at hentity
          exact leads_inside hentity (ctx.ofEntity name) value ht hactive
      | external id base =>
          dsimp only
          refine leads_enter fun level t hlevel ht hactive => ?_
          rw [hlevel] at hentity
          refine .perform_seq fun r u hload => ?_
          refine .perform_seq fun _ w hcheck => ?_
          obtain rfl := check_eq_ok hcheck
          have hw : w.active = t.active := by rw [(load_eq_ok hload).2]
          refine leads_inside hentity (.ofResource r) r.text ?_ (hw.trans hactive)
          rw [← ht, levelAt, hw, levelAt]

theorem leads_handleAt (hentity : EntitiesLead c call (levelAt c s)) (ctx : Context)
    (text : Text) (fail : Fault → Error) (item : Item) :
    Leads (Returns Eq) s.active (handleAt c call ctx fail item s)
      (scanItem c fail (ctx.site text) (levelAt c s) (scanBelow c (levelAt c s)) item s) := by
  cases item with
  | comment inside => exact .of_perform fun _ _ h => active_of_report h
  | instruction target data => exact .of_perform fun _ _ h => active_of_report h
  | declaration kind body => exact leads_declareAt c ctx text fail kind body s
  | reference name => exact leads_scanEntityAt hentity ctx text fail name
  | textDeclaration => exact .of_pure rfl rfl
  | sectionStart keyword start => exact .of_pure rfl rfl

/-- What is left where an offset is, in front of a bound, is still to be scanned. -/
def GoesOn (c : Setting σ) (level : Nat) (stop : Stop) (site : Site) (text : Text)
    (opened bound : Nat) (pos : Nat) (y : Scan σ Text) : Prop :=
  ∃ left, left <:+ text ∧ left.length < bound ∧ pos = offset text left ∧
    y = scanItems c level (scanBelow c level) stop site opened left

def scanRead (c : Setting σ) (level : Nat) (stop : Stop) (site : Site) (opened : Nat)
    (rest : Text) (read : Except Fault (Item × Text)) : Scan σ Text :=
  match read with
  | .error fault => throw (site.error rest fault)
  | .ok (item, left) => do
    scanItem c (site.error rest) site level (scanBelow c level) item
    scanItems c level (scanBelow c level) stop site opened left

theorem leads_passAt (hentity : EntitiesLead c call (levelAt c s)) (h : rest <:+ text)
    {read : Except Fault (Item × Text)}
    (hread : ∀ item left, read = .ok (item, left) → left <:+ text ∧ left.length < rest.length)
    (ctx : Context) (stop : Stop) (opened : Nat) :
    Leads (GoesOn c (levelAt c s) stop (ctx.site text) text opened rest.length) s.active
      (passAt c call ctx text (offset text rest) (some (byOffset text read)) s)
      (scanRead c (levelAt c s) stop (ctx.site text) opened rest read s) := by
  rw [passAt, funext (Context.errorAt_offset h ctx)]
  cases read with
  | error fault => exact .throw _ s
  | ok p =>
      obtain ⟨item, left⟩ := p
      obtain ⟨hleft, hlength⟩ := hread item left rfl
      change Leads _ _ ((handleAt c call ctx _ item >>= fun _ => pure (offset text left)) s) _
      refine .seq (leads_handleAt hentity ctx text _ item) fun _ _ t _ ht => ?_
      exact .ok ⟨left, hleft, hlength, rfl, rfl⟩ ht

/-! ### Sections -/

def scanOpened (c : Setting σ) (level : Nat) (stop : Stop) (site : Site) (opened : Nat) :
    Except Failure (SectionKind × Text) → Scan σ Text
  | .error f => throw (site.error f.rest f.fault)
  | .ok (.included, left) => scanItems c level (scanBelow c level) stop site (opened + 1) left
  | .ok (.ignored, left) => scanItems c level (scanBelow c level) stop site opened left

def scanSection (c : Setting σ) (level : Nat) (stop : Stop) (site : Site) (opened : Nat)
    (item start : Text) : Scan σ Text :=
  match Item.readKeyword start with
  | .error fault => throw (site.error start fault)
  | .ok (keyword, left) => do
    let word ← sectionKeyword c (site.error start) level keyword
    scanOpened c level stop site opened (openSection item start word left)

theorem Item.readKeyword_suffix {start : Text} {keyword : SectionKeyword}
    (h : Item.readKeyword start = .ok (keyword, left)) : left <:+ start := by
  unfold Item.readKeyword at h
  split at h
  · next t =>
    split at h
    · next name _ href =>
      cases h
      exact ⟨'%' :: (name ++ [';']), by simp [reference?_eq_some href]⟩
    · cases h
  · cases h
    exact nameOrEmpty_suffix start

def SectionsLead (c : Setting σ) (call : Spot → Attempt σ Nat) (ctx : Context) (text : Text)
    (stop : Stop) (opened bound : Nat) (s : State σ) : Prop :=
  ∀ body (t : State σ), body <:+ text → body.length < bound → t.active = s.active →
    Leads (GoesOn c (levelAt c s) stop (ctx.site text) text opened body.length) t.active
      (call ⟨ctx, text, .sectionEnd, offset text body⟩ t)
      (scanItems c (levelAt c s) (scanBelow c (levelAt c s)) stop (ctx.site text)
        (opened + 1) body t)

theorem leads_openedAt (hscan : SectionsLead c call ctx text stop opened rest.length s)
    (h : rest <:+ text) (hstart : start <:+ text) (hleft : left <:+ text)
    (hlength : left.length < rest.length) (word : Text) (ht : u.active = s.active) :
    Leads (GoesOn c (levelAt c s) stop (ctx.site text) text opened rest.length) s.active
      (openedAt call ctx text
        ((byOffset text (openSection rest start word left)).mapError (Failure.byOffset text))
          u)
      (scanOpened c (levelAt c s) stop (ctx.site text) opened
        (openSection rest start word left) u) := by
  cases hopen : openSection rest start word left with
  | error f =>
      have hrest : f.rest <:+ text := by
        rcases openSection_eq_error hopen with hrest | hrest | hrest <;> rw [hrest]
        · exact h
        · exact hstart
        · exact (Text.skipBlanks_suffix left).trans hleft
      change Leads _ _ ((throw (ctx.errorAt text (offset text f.rest) f.fault) : Attempt σ Nat)
        u) _
      rw [Context.errorAt_offset hrest]
      exact .throw _ u
  | ok p =>
      obtain ⟨kind, body⟩ := p
      have hbody : body <:+ text := (openSection_suffix hopen).trans hleft
      have hbodyLength : body.length < rest.length :=
        (openSection_length hopen).trans_lt hlength
      cases kind with
      | included =>
          rw [← ht]
          refine (hscan body u hbody hbodyLength ht).mono fun pos y hgoes => ?_
          obtain ⟨left, hsuffix, hlt, hpos, hy⟩ := hgoes
          exact ⟨left, hsuffix, Nat.lt_trans hlt hbodyLength, hpos, hy⟩
      | ignored => exact .ok ⟨body, hbody, hbodyLength, rfl, rfl⟩ ht

theorem leads_sectionAt (hscan : SectionsLead c call ctx text stop opened rest.length s)
    (h : rest <:+ text) (hbehind : Text.from? rest 3 = some behind) :
    Leads (GoesOn c (levelAt c s) stop (ctx.site text) text opened rest.length) s.active
      (sectionAt c call ctx text (offset text rest) s)
      (scanSection c (levelAt c s) stop (ctx.site text) opened rest
        (Text.skipBlanks behind) s) := by
  have hbehindText : behind <:+ text := (Text.suffix_of_from? hbehind).trans h
  have hstart : Text.skipBlanks behind <:+ text :=
    (Text.skipBlanks_suffix behind).trans hbehindText
  rw [sectionAt, ← Text.offset_of_from? h hbehind, skipBlanksAt_offset hbehindText,
    slice_some_bind,
    keywordAt_offset hstart, scanSection, funext (Context.errorAt_offset hstart ctx)]
  cases hkeyword : Item.readKeyword (Text.skipBlanks behind) with
  | error fault => exact .throw _ s
  | ok p =>
      obtain ⟨keyword, left⟩ := p
      have hleft := Item.readKeyword_suffix hkeyword
      have hlength : left.length < rest.length :=
        (hleft.trans (Text.skipBlanks_suffix behind)).length_le.trans_lt
          (Text.length_lt_of_from? hbehind (by decide))
      change Leads _ _ ((keywordTextAt c _ keyword >>= _) s)
        ((sectionKeyword c _ _ keyword >>= _) s)
      refine .seq (leads_keywordTextAt c _ keyword s) fun word word' t hword ht => ?_
      subst hword
      dsimp only
      rw [openSectionAt_offset (hleft.trans hstart), slice_some_bind]
      exact leads_openedAt hscan h hstart (hleft.trans hstart) hlength word ht

/-! ### Texts -/

def scanItemFrom (c : Setting σ) (level : Nat) (stop : Stop) (site : Site) (opened : Nat)
    (d : Char) (t : Text) : Scan σ Text :=
  match Item.read d t with
  | .error f => throw (site.error f.rest f.fault)
  | .ok (.sectionStart keyword start, left) => do
    let word ← sectionKeyword c (site.error start) level keyword
    scanOpened c level stop site opened (openSection (d :: t) start word left)
  | .ok (item, left) => do
    scanItem c (site.error (d :: t)) site level (scanBelow c level) item
    scanItems c level (scanBelow c level) stop site opened left

theorem scanItems_eq_scanItemFrom (hskip : Text.skipBlanks v = d :: t)
    (hstop : stop.isAt opened d = false) (hend : sectionEnd? opened (d :: t) = none) :
    scanItems c level (scanBelow c level) stop site opened v =
      scanItemFrom c level stop site opened d t := by
  rw [scanItems_eq, hskip, scanStep, hstop, hend]
  rfl

def scanPart (c : Setting σ) (level : Nat) (stop : Stop) (site : Site) (opened : Nat)
    (rest body : Text) : Part → Scan σ Text
  | .comment => scanRead c level stop site opened rest (Item.readComment body)
  | .instruction => scanRead c level stop site opened rest (Item.readInstruction body)
  | .conditional => scanSection c level stop site opened rest (Text.skipBlanks body)
  | .declaration => scanRead c level stop site opened rest (Item.readDeclaration body)
  | .reference => scanRead c level stop site opened rest (Item.readReference body)

theorem scanItemFrom_of_read {read : Except Fault (Item × Text)}
    (hread : Item.read d t = read.mapError fun fault => ⟨fault, d :: t⟩)
    (hsection : ∀ item left, read = .ok (item, left) → item.isSection = false ∧ left <:+ v) :
    scanItemFrom c level stop site opened d t =
      scanRead c level stop site opened (d :: t) read := by
  rw [scanItemFrom, hread]
  cases read with
  | error fault => rfl
  | ok p =>
      obtain ⟨item, left⟩ := p
      obtain ⟨hitem, -⟩ := hsection item left rfl
      cases item with
      | sectionStart keyword start => cases hitem
      | _ => rfl

theorem scanItemFrom_section (body : Text) :
    scanItemFrom c level stop site opened '<' ('!' :: '[' :: body) =
      scanSection c level stop site opened ('<' :: '!' :: '[' :: body)
        (Text.skipBlanks body) := by
  have hread : Item.read '<' ('!' :: '[' :: body) =
    Item.readSectionStart (Text.skipBlanks body) := rfl
  rw [scanItemFrom, hread, Item.readSectionStart_eq, scanSection]
  rcases Item.readKeyword (Text.skipBlanks body) with fault | ⟨keyword, left⟩ <;> rfl

namespace Part

theorem mark_of_ofMark? {part : Part} (h : ofMark? t = some part) :
    ∃ body, t = part.mark ++ body := by
  have hmark := List.find?_some h
  obtain ⟨body, hbody⟩ := List.isPrefixOf_iff_prefix.1 hmark
  exact ⟨body, hbody.symm⟩

theorem not_mark_of_ofMark?_declaration (h : ofMark? t = some declaration) (v : Text) :
    t ≠ comment.mark ++ v ∧ t ≠ conditional.mark ++ v := by
  constructor <;> rintro rfl <;> cases h

theorem ne_mark_of_ofMark?_eq_none (h : ofMark? t = none) (part : Part) (v : Text) :
    t ≠ part.mark ++ v := by
  rintro rfl
  refine List.find?_eq_none.1 h part ?_ (List.isPrefixOf_iff_prefix.2 (List.prefix_append _ _))
  cases part <;> simp

end Part

/-- The part whose mark stands in front is done. -/
theorem scanItemFrom_of_ofMark? {part : Part} (h : Part.ofMark? (d :: t) = some part) :
    ∃ body, d :: t = part.mark ++ body ∧
      scanItemFrom c level stop site opened d t =
        scanPart c level stop site opened (d :: t) body part := by
  obtain ⟨body, hbody⟩ := Part.mark_of_ofMark? h
  refine ⟨body, hbody, ?_⟩
  cases part with
  | comment =>
      cases hbody
      exact scanItemFrom_of_read (Item.read_comment body) fun _ _ => Item.readComment_suffix
  | instruction =>
      cases hbody
      exact scanItemFrom_of_read (Item.read_instruction body) fun _ _ =>
        Item.readInstruction_suffix
  | conditional =>
      cases hbody
      exact scanItemFrom_section body
  | declaration =>
      cases hbody
      have hmark := Part.not_mark_of_ofMark?_declaration h
      refine scanItemFrom_of_read (Item.read_declaration' (fun v hv => ?_) fun v hv => ?_)
        fun _ _ => Item.readDeclaration_suffix
      · exact (hmark v).1 (congrArg (fun body => '<' :: '!' :: body) hv)
      · exact (hmark v).2 (congrArg (fun body => '<' :: '!' :: body) hv)
  | reference =>
      cases hbody
      exact scanItemFrom_of_read (Item.read_reference body) fun _ _ =>
        Item.readReference_suffix

theorem read_unexpected (h : Part.ofMark? (d :: t) = none) :
    Item.read d t = .error ⟨.unexpectedChar d, d :: t⟩ := by
  have hmark := Part.ne_mark_of_ofMark?_eq_none h
  unfold Item.read
  split
  · exact absurd rfl (hmark .comment _)
  · exact absurd rfl (hmark .instruction _)
  · exact absurd rfl (hmark .conditional _)
  · exact absurd rfl (hmark .declaration _)
  · exact absurd rfl (hmark .reference _)
  · rfl

/-- Behind the bytes of its mark a part is done as in a scan; a declaration is looked for from
its mark on. -/
theorem leads_partAt (hentity : EntitiesLead c call (levelAt c s))
    (hscan : SectionsLead c call ctx text stop opened rest.length s) (part : Part)
    (h : rest <:+ text) (hbehind : Text.from? rest (Text.size part.mark) = some behind)
    (hmark : part = .declaration → rest = part.mark ++ behind) :
    Leads (GoesOn c (levelAt c s) stop (ctx.site text) text opened rest.length) s.active
      (partAt c call ctx text (offset text rest) part s)
      (scanPart c (levelAt c s) stop (ctx.site text) opened rest behind part s) := by
  have hbehindText : behind <:+ rest := Text.suffix_of_from? hbehind
  have hlength : behind.length < rest.length :=
    Text.length_lt_of_from? hbehind (by cases part <;> decide)
  -- an item is read behind the mark
  have hpass {read : Except Fault (Item × Text)}
      (hread : ∀ item left, read = .ok (item, left) → item.isSection = false ∧
        left <:+ behind) :
      Leads (GoesOn c (levelAt c s) stop (ctx.site text) text opened rest.length) s.active
        (passAt c call ctx text (offset text rest) (some (byOffset text read)) s)
        (scanRead c (levelAt c s) stop (ctx.site text) opened rest read s) := by
    refine leads_passAt hentity h (fun item left hok => ?_) ctx stop opened
    obtain ⟨-, hleft⟩ := hread item left hok
    exact ⟨hleft.trans (hbehindText.trans h), hleft.length_le.trans_lt hlength⟩
  cases part with
  | comment =>
      rw [partAt, commentAt_offset h hbehind]
      exact hpass fun _ _ => Item.readComment_suffix
  | instruction =>
      rw [partAt, instructionAt_offset h hbehind]
      exact hpass fun _ _ => Item.readInstruction_suffix
  | conditional => exact leads_sectionAt hscan h hbehind
  | declaration =>
      obtain rfl : rest = '<' :: '!' :: behind := hmark rfl
      rw [partAt, declarationAt_offset h]
      exact hpass fun _ _ => Item.readDeclaration_suffix
  | reference =>
      rw [partAt, referringAt_offset h hbehind]
      exact hpass fun _ _ => Item.readReference_suffix

theorem leads_itemAt (hentity : EntitiesLead c call (levelAt c s))
    (hscan : SectionsLead c call ctx text stop opened (d :: t).length s)
    (h : d :: t <:+ text) :
    Leads (GoesOn c (levelAt c s) stop (ctx.site text) text opened (d :: t).length) s.active
      (itemAt c call ctx text (offset text (d :: t)) d t s)
      (scanItemFrom c (levelAt c s) stop (ctx.site text) opened d t s) := by
  rw [itemAt]
  cases hpart : Part.ofMark? (d :: t) with
  | some part =>
      obtain ⟨body, hbody, hscanItem⟩ := scanItemFrom_of_ofMark? hpart
      rw [hscanItem]
      refine leads_partAt hentity hscan part h ?_ fun _ => hbody
      rw [hbody]
      exact Text.from?_size part.mark body
  | none =>
      rw [scanItemFrom, read_unexpected hpart]
      dsimp only
      rw [Context.errorAt_offset h]
      exact .throw _ s

def Stop.terminator : Stop → Nat → Terminator
  | textEnd, 0 => .textEnd
  | bracket, 0 => .bracket
  | _, _ + 1 => .sectionEnd

theorem Stop.terminator_succ (stop : Stop) (opened : Nat) :
    stop.terminator (opened + 1) = .sectionEnd := by
  cases stop <;> rfl

namespace Terminator

theorem faultAtEnd_terminator (stop : Stop) (opened : Nat) :
    (stop.terminator opened).faultAtEnd = stop.faultAtEnd opened := by
  cases opened with
  | zero => cases stop <;> rfl
  | succ opened => cases stop <;> rfl

theorem stopsAt?_of_isAt (h : stop.isAt opened d = true) (t : Text) :
    opened = 0 ∧ (stop.terminator opened).stopsAt? (d :: t) = some 0 := by
  simp only [Stop.isAt, Bool.and_eq_true, decide_eq_true_eq] at h
  obtain ⟨⟨rfl, rfl⟩, rfl⟩ := h
  exact ⟨rfl, rfl⟩

theorem stopsAt?_of_sectionEnd? (h : sectionEnd? opened t = some left) (stop : Stop) :
    (stop.terminator opened).stopsAt? t = some 3 := by
  obtain ⟨hopened, rfl⟩ := sectionEnd?_eq_some_iff.1 h
  obtain ⟨outer, rfl⟩ := Nat.exists_eq_add_one_of_ne_zero (Nat.ne_of_gt hopened)
  cases stop <;> rfl

theorem stopsAt?_eq_none (hstop : stop.isAt opened d = false)
    (hend : sectionEnd? opened (d :: t) = none) :
    (stop.terminator opened).stopsAt? (d :: t) = none := by
  cases opened with
  | zero =>
      cases stop with
      | textEnd => rfl
      | bracket =>
          have hd : d ≠ ']' := by simpa [Stop.isAt] using hstop
          simp [Stop.terminator, stopsAt?, List.isPrefixOf, Ne.symm hd]
  | succ opened =>
      have hmark : Text.dropPrefix? "]]>" (d :: t) = none := by simpa [sectionEnd?] using hend
      have hprefix : List.isPrefixOf "]]>".toList (d :: t) = false := by
        rw [Text.isPrefixOf_eq_isSome, hmark, Option.isSome_none]
      cases stop <;> simp only [Stop.terminator, stopsAt?, hprefix,
        Bool.false_eq_true, if_false]

end Terminator

inductive Landing.Means (stop : Stop) (text rest : Text) : Nat → Landing → Prop
  | textEnd : Text.skipBlanks rest = [] → stop.faultAtEnd 0 = none →
      Means stop text rest 0 (ended (offset text []))
  | failed {opened : Nat} {fault : Fault} :
      Text.skipBlanks rest = [] → stop.faultAtEnd opened = some fault →
      Means stop text rest opened (failed (offset text []) fault)
  | bracket {d : Char} {t : Text} : Text.skipBlanks rest = d :: t → stop.isAt 0 d = true →
      Means stop text rest 0 (ended (offset text (d :: t)))
  | sectionEnd {opened : Nat} {left : Text} : Text.skipBlanks rest = "]]>".toList ++ left →
      Means stop text rest (opened + 1) (ended (offset text left))
  | item {opened : Nat} {d : Char} {t : Text} :
      Text.skipBlanks rest = d :: t → stop.isAt opened d = false →
      sectionEnd? opened (d :: t) = none →
      Means stop text rest opened (item (offset text (d :: t)) d t)

theorem landingAt_offset (h : rest <:+ text) (stop : Stop) (opened : Nat) :
    ∃ landing, landingAt (stop.terminator opened) text (offset text rest) = some landing ∧
      landing.Means stop text rest opened := by
  have hblanks : Text.skipBlanks rest <:+ text := (Text.skipBlanks_suffix rest).trans h
  rw [landingAt, skipBlanksAt_offset h]
  simp only [Option.bind_eq_bind, Option.bind_some, Text.from?_offset hblanks]
  cases hskip : Text.skipBlanks rest with
  | nil =>
      simp only [Terminator.faultAtEnd_terminator]
      cases hfault : stop.faultAtEnd opened with
      | some fault => exact ⟨_, rfl, .failed hskip hfault⟩
      | none =>
          cases opened with
          | zero => exact ⟨_, rfl, .textEnd hskip hfault⟩
          | succ outer => cases hfault
  | cons d t =>
      rw [hskip] at hblanks
      cases hstop : stop.isAt opened d with
      | true =>
          obtain ⟨rfl, hstops⟩ := Terminator.stopsAt?_of_isAt hstop t
          simp only [hstops]
          exact ⟨_, rfl, .bracket hskip hstop⟩
      | false =>
          cases hend : sectionEnd? opened (d :: t) with
          | none =>
              simp only [Terminator.stopsAt?_eq_none hstop hend]
              exact ⟨_, rfl, .item hskip hstop hend⟩
          | some left =>
              simp only [Terminator.stopsAt?_of_sectionEnd? hend]
              obtain ⟨hopened, hleft⟩ := sectionEnd?_eq_some_iff.1 hend
              obtain ⟨outer, rfl⟩ := Nat.exists_eq_add_one_of_ne_zero (Nat.ne_of_gt hopened)
              rw [hleft] at hblanks hskip ⊢
              have hthree : offset text ("]]>".toList ++ left) + 3 = offset text left :=
                (Text.offset_append hblanks).symm
              rw [hthree]
              exact ⟨_, rfl, .sectionEnd hskip⟩

/-- What is still to be done where a text ends, in front of which `rest` was left: to return
what is left there, or if a section ends there, to scan that in the outer one. -/
def ScanEnds (c : Setting σ) (level : Nat) (stop : Stop) (site : Site) (text rest : Text) :
    Nat → Nat → Scan σ Text → Prop
  | 0, pos, y => ∃ left, left <:+ rest ∧ pos = offset text left ∧ y = pure left
  | opened + 1, pos, y => GoesOn c level stop site text opened rest.length pos y

theorem ScanEnds.mono {pos : Nat} {y : Scan σ Text}
    (h : ScanEnds c level stop site text left opened pos y) (hleft : left <:+ rest) :
    ScanEnds c level stop site text rest opened pos y := by
  cases opened with
  | zero =>
      obtain ⟨u, hu, hpos, hy⟩ := h
      exact ⟨u, hu.trans hleft, hpos, hy⟩
  | succ opened =>
      obtain ⟨u, hu, hlt, hpos, hy⟩ := h
      exact ⟨u, hu, Nat.lt_of_lt_of_le hlt hleft.length_le, hpos, hy⟩

/-- From what is left of a text the scan leads to where the scan of that does, if the texts of
entities and what is left behind an item are scanned as there. -/
theorem leads_scanSpot (hentity : EntitiesLead c call (levelAt c s)) (h : rest <:+ text)
    (ctx : Context) (stop : Stop) (opened : Nat)
    (hcall : ∀ left opened' (t : State σ), left <:+ text → left.length < rest.length →
      t.active = s.active →
        Leads (ScanEnds c (levelAt c s) stop (ctx.site text) text left opened') t.active
          (call ⟨ctx, text, stop.terminator opened', offset text left⟩ t)
            (scanItems c (levelAt c s) (scanBelow c (levelAt c s)) stop (ctx.site text)
              opened' left t)) :
    Leads (ScanEnds c (levelAt c s) stop (ctx.site text) text rest opened) s.active
      (scanSpot c call ⟨ctx, text, stop.terminator opened, offset text rest⟩ s)
      (scanItems c (levelAt c s) (scanBelow c (levelAt c s)) stop (ctx.site text)
        opened rest s) := by
  have hblanks : Text.skipBlanks rest <:+ rest := Text.skipBlanks_suffix rest
  obtain ⟨landing, hlanding, hmeans⟩ := landingAt_offset h stop opened
  rw [scanSpot, hlanding, slice_some_bind]
  cases hmeans with
  | textEnd hskip hfault =>
      rw [scanItems_eq, hskip, scanStep, hfault]
      exact .ok ⟨[], List.nil_suffix, rfl, rfl⟩ rfl
  | failed hskip hfault =>
      rw [scanItems_eq, hskip, scanStep, hfault]
      dsimp only
      rw [Context.errorAt_offset List.nil_suffix]
      exact .throw _ s
  | @bracket d t hskip hstop =>
      rw [scanItems_eq, hskip, scanStep, if_pos hstop]
      rw [hskip] at hblanks
      exact .ok ⟨d :: t, hblanks, rfl, rfl⟩ rfl
  | @sectionEnd outer left hskip =>
      rw [scanItems_eq, hskip, scanStep_sectionEnd]
      rw [hskip] at hblanks
      have hlength := hblanks.length_le
      rw [List.length_append] at hlength
      have hleft := (List.suffix_append "]]>".toList left).trans (hblanks.trans h)
      exact .ok ⟨left, hleft, Nat.lt_of_lt_of_le (Nat.lt_add_of_pos_left (by decide)) hlength,
        rfl, rfl⟩ rfl
  | @item opened d t hskip hstop hend =>
      rw [scanItems_eq_scanItemFrom hskip hstop hend]
      rw [hskip] at hblanks
      dsimp only
      refine .bind (leads_itemAt hentity (fun body u hbody hlength hu => ?_) (hblanks.trans h))
        fun next y u hgoes hu => ?_
      · have hsection :=
          hcall body (opened + 1) u hbody (hlength.trans_le hblanks.length_le) hu
        rwa [Stop.terminator_succ] at hsection
      · obtain ⟨left, hleft, hlength, rfl, rfl⟩ := hgoes
        have hlt := hlength.trans_le hblanks.length_le
        have hleftRest := List.suffix_of_suffix_length_le hleft h (Nat.le_of_lt hlt)
        rw [← hu]
        exact (hcall left opened u hleft hlt hu).mono fun pos y hends => hends.mono hleftRest

theorem ScanEnds.returns {pos : Nat} {y : Scan σ Text}
    (h : ScanEnds c level stop site text rest 0 pos y) :
    Returns (fun pos left => pos = offset text left) pos y := by
  obtain ⟨left, -, hpos, hy⟩ := h
  exact ⟨left, hy, hpos⟩

/-- A text is scanned from an offset on as what is left there; every call is smaller. -/
theorem leads_scanAt (h : rest <:+ text) (ctx : Context) (stop : Stop) (opened : Nat)
    (hs : levelAt c s = level) :
    Leads (ScanEnds c level stop (ctx.site text) text rest opened) s.active
      (scanAt c ⟨ctx, text, stop.terminator opened, offset text rest⟩ s)
      (scanItems c level (scanBelow c level) stop (ctx.site text) opened rest s) := by
  induction level using Nat.strong_induction_on generalizing ctx text rest stop opened s with
  | _ level ihLevel =>
      induction hn : rest.length using Nat.strong_induction_on generalizing rest opened s with
      | _ n ihLength =>
          obtain rfl := hs
          rw [scanAt, descend_apply]
          refine leads_scanSpot (fun inner inside t ht => ?_) h ctx stop opened
            fun left opened' t hleft hlength ht => ?_
          · -- inside of an entity there is a level less
            have hless : Precedes (Spot.measure c (.start inner inside) t)
                (Spot.measure c ⟨ctx, text, stop.terminator opened, offset text rest⟩ s) :=
              .inl (by simp only [Spot.measure]; omega)
            have hinside :=
              ihLevel (levelAt c t) (by omega) (List.suffix_refl inside) inner .textEnd 0 rfl
            rw [Text.offset_self, ← scan_eq_scanItems] at hinside
            rw [onlyBefore_of_precedes hless]
            exact hinside.mono fun pos y => ScanEnds.returns
          · have hlevel : levelAt c t = levelAt c s := by rw [levelAt, ht, levelAt]
            rw [onlyBefore_of_precedes (precedes_of_length h hleft hlength hlevel)]
            exact ihLength left.length (hn ▸ hlength) hleft opened' hlevel rfl

theorem entitiesLead (c : Setting σ) (level : Nat) : EntitiesLead c (scanAt c) level := by
  intro ctx text t _
  have hscan := leads_scanAt (c := c) (s := t) (List.suffix_refl text) ctx .textEnd 0 rfl
  rw [Text.offset_self, ← scan_eq_scanItems] at hscan
  exact hscan.mono fun pos y => ScanEnds.returns

theorem sectionsLead (c : Setting σ) (ctx : Context) (text : Text) (stop : Stop)
    (opened bound : Nat) (s : State σ) :
    SectionsLead c (scanAt c) ctx text stop opened bound s := by
  intro body t hbody _ ht
  have hlevel : levelAt c t = levelAt c s := by rw [levelAt, ht, levelAt]
  have hscan := leads_scanAt hbody ctx stop (opened + 1) hlevel
  rwa [Stop.terminator_succ] at hscan

end Doctype.Markup
