import Doctype.Proofs.Content.Offsets
import Doctype.Proofs.Markup.Stepping

/-!
A scan makes progress inside its text. From a boundary between characters a scan by offsets
ends, with no slice on its way that is not there, and the offset where it ends is a boundary
again and the one where the scan of what is left ends (`scanAt_eq_scan`). What it goes on from
behind an item, a section or a reference is a boundary further on (`scanner_progresses`).
-/

namespace Doctype

namespace Text

variable {text rest left : Text} {pos : Nat}

/-- An offset is a boundary of a text, behind a position in it. -/
structure Advances (text : Text) (pos next : Nat) : Prop where
  isBoundary : text.IsBoundary next
  le_size : next ≤ size text
  lt : pos < next

theorem advances_offset (h : rest <:+ text) (hleft : left <:+ text)
    (hlength : left.length < rest.length) :
    Advances text (offset text rest) (offset text left) :=
  ⟨isBoundary_offset hleft, offset_le text left,
    offset_lt h (List.suffix_of_suffix_length_le hleft h (Nat.le_of_lt hlength)) hlength⟩

end Text

namespace Markup

open Text (offset)

variable {σ : Type} {c : Setting σ} {call : Spot → Attempt σ Nat} {ctx : Context}
  {text rest behind : Text}
  {pos next opened : Nat} {s t : State σ} {item : Item} {stop : Stop}

/-! ### Marks -/

theorem exists_of_passAt {read : Option (Except Fault (Item × Nat))}
    (h : passAt c call ctx text pos read s = some (.ok next, t)) :
    ∃ item, read = some (.ok (item, next)) := by
  rw [passAt] at h
  obtain ⟨p, u, hread, h⟩ := Attempt.exists_of_bind_eq_ok h
  obtain ⟨_, v, -, hpure⟩ := Attempt.exists_of_bind_eq_ok h
  cases hpure
  rcases read with - | fault | p'
  · cases hread
  · cases hread
  · cases hread
    exact ⟨p.1, rfl⟩

theorem exists_of_declarationAt (h : declarationAt text pos = some (.ok (item, next))) :
    ∃ stop, declarationEndAt text pos = some (some stop) ∧ next = stop + 1 := by
  obtain ⟨read, hread, h⟩ := Option.bind_eq_some_iff.1 h
  cases read with
  | none => cases h
  | some stop =>
      refine ⟨stop, hread, ?_⟩
      obtain ⟨inside, -, h⟩ := Option.bind_eq_some_iff.1 h
      obtain ⟨word, -, h⟩ := Option.bind_eq_some_iff.1 h
      obtain ⟨body, -, h⟩ := Option.bind_eq_some_iff.1 h
      split at h <;> cases h
      rfl

/-- A part other than a declaration that succeeds takes the slice behind the bytes of its mark,
whatever they are. -/
theorem exists_behind_of_partAt {part : Part} (hpart : part ≠ .declaration) (h : rest <:+ text)
    (hok : partAt c call ctx text (offset text rest) part s = some (.ok next, t)) :
    ∃ behind, Text.from? rest (Text.size part.mark) = some behind := by
  cases part with
  | comment =>
      rw [partAt] at hok
      obtain ⟨item, hread⟩ := exists_of_passAt hok
      obtain ⟨behind, hbehind, -⟩ := Option.bind_eq_some_iff.1 hread
      rw [Text.from?_offset_add h] at hbehind
      exact ⟨behind, hbehind⟩
  | instruction =>
      rw [partAt] at hok
      obtain ⟨item, hread⟩ := exists_of_passAt hok
      obtain ⟨rest', hrest, hread⟩ := Option.bind_eq_some_iff.1 hread
      rw [Text.from?_offset h] at hrest
      cases hrest
      obtain ⟨behind, hbehind, -⟩ := Option.bind_eq_some_iff.1 hread
      exact ⟨behind, hbehind⟩
  | conditional =>
      rw [partAt, sectionAt, skipBlanksAt, Text.from?_offset_add h] at hok
      obtain ⟨start, u, hstart, -⟩ := Attempt.exists_of_bind_eq_ok hok
      cases hbehind : rest.from? 3 with
      | none =>
          rw [hbehind] at hstart
          cases hstart
      | some behind => exact ⟨behind, hbehind⟩
  | declaration => exact absurd rfl hpart
  | reference =>
      rw [partAt] at hok
      obtain ⟨item, hread⟩ := exists_of_passAt hok
      rw [referringAt, referenceAt, Text.from?_offset_add h] at hread
      cases hbehind : rest.from? 1 with
      | none =>
          rw [hbehind] at hread
          cases hread
      | some behind => exact ⟨behind, hbehind⟩

/-! ### Searching -/

theorem referenceAt_advances (h : rest <:+ text) :
    ∃ read, referenceAt text (offset text rest) = some read ∧
      ∀ p ∈ read, text.Advances (offset text rest) p.2 := by
  refine ⟨_, referenceAt_offset h, ?_⟩
  rintro ⟨name, next⟩ hread
  obtain ⟨behind, hbehind, hread⟩ := Option.bind_eq_some_iff.1 hread
  obtain ⟨⟨name', left⟩, href, hp⟩ := Option.map_eq_some_iff.1 hread
  cases hp
  have hleft : left <:+ behind := ⟨name' ++ [';'], by simp [reference?_eq_some href]⟩
  have hsuffix : behind <:+ text := (Text.suffix_of_from? hbehind).trans h
  have hlength := hleft.length_le.trans_lt (Text.length_lt_of_from? hbehind Nat.zero_lt_one)
  exact Text.advances_offset h (hleft.trans hsuffix) hlength

theorem skipIgnored_length {depth : Nat} {left : Text}
    (h : skipIgnored depth rest = some left) : left.length < rest.length := by
  fun_induction skipIgnored depth rest with
  | case1 t =>
      cases h
      simp only [List.length_cons]
      omega
  | case2 t depth ih =>
      have := ih h
      simp only [List.length_cons]
      omega
  | case3 depth t ih =>
      have := ih h
      simp only [List.length_cons]
      omega
  | case4 depth c t _ _ ih => exact Nat.lt_succ_of_lt (ih h)
  | case5 => cases h

theorem skipIgnoredAt_advances (h : rest <:+ text) (depth : Nat) :
    ∃ found, skipIgnoredAt text (depth + 1) (offset text rest) = some found ∧
      ∀ next ∈ found, text.Advances (offset text rest) next := by
  refine ⟨_, skipIgnoredAt_offset h depth, fun next hnext => ?_⟩
  obtain ⟨left, hleft, rfl⟩ := Option.map_eq_some_iff.1 hnext
  refine Text.advances_offset h ((skipIgnored_suffix hleft).trans h) (skipIgnored_length hleft)

/-- The end of a declaration is the offset of a character. -/
theorem declarationEndAt_boundary (h : rest <:+ text) :
    ∃ found, declarationEndAt text (offset text rest) = some found ∧
      ∀ stop ∈ found, text.IsBoundary stop ∧ offset text rest ≤ stop ∧
        text.Advances stop (stop + 1) := by
  refine ⟨_, declarationEndAt_offset h, fun stop hstop => ?_⟩
  obtain ⟨⟨inside, left⟩, hread, rfl⟩ := Option.map_eq_some_iff.1 hstop
  have hrest : rest = inside ++ '>' :: left := declarationFrom?_eq_some hread
  subst hrest
  have hclosing : '>' :: left <:+ text := (List.suffix_append _ _).trans h
  have hone : offset text ('>' :: left) + 1 = offset text left :=
    (Text.offset_cons hclosing).symm
  refine ⟨Text.isBoundary_offset hclosing, ?_, ?_⟩
  · dsimp only
    rw [Text.offset_append h]
    exact Nat.le_add_right _ _
  · dsimp only
    rw [hone]
    exact Text.advances_offset hclosing ((List.suffix_cons _ _).trans hclosing)
      (Nat.lt_succ_self _)

/-! ### Scanning -/

theorem GoesOn.advances {level : Nat} {site : Site} {x : Option (Except Error Nat × State σ)}
    {y : EStateM.Result Error (State σ) Text} {active : List Text}
    (hx : Leads (GoesOn c level stop site text opened rest.length) active x y)
    (h : rest <:+ text) :
    x ≠ none ∧ ∀ next t, x = some (.ok next, t) → text.Advances (offset text rest) next := by
  refine ⟨hx.ne_none, fun next t hok => ?_⟩
  subst hok
  obtain ⟨-, y', ⟨left, hleft, hlength, rfl, -⟩, -⟩ := hx.exists_of_ok
  exact Text.advances_offset h hleft hlength

theorem partAt_advances_of (c : Setting σ) (ctx : Context) (part : Part) (h : rest <:+ text)
    (hbehind : Text.from? rest (Text.size part.mark) = some behind)
    (hmark : part = .declaration → rest = part.mark ++ behind) (s : State σ) :
    partAt c (scanAt c) ctx text (offset text rest) part s ≠ none ∧
      ∀ next t, partAt c (scanAt c) ctx text (offset text rest) part s = some (.ok next, t) →
        text.Advances (offset text rest) next :=
  GoesOn.advances (leads_partAt (entitiesLead c _) (sectionsLead c ctx text .textEnd 0 _ s)
    part h hbehind hmark) h

theorem partAt_ne_none (c : Setting σ) (ctx : Context) (part : Part) (h : rest <:+ text)
    (hmark : part.mark <+: rest) (s : State σ) :
    partAt c (scanAt c) ctx text (offset text rest) part s ≠ none := by
  obtain ⟨body, rfl⟩ := hmark
  exact (partAt_advances_of c ctx part h (Text.from?_size part.mark body) (fun _ => rfl) s).1

theorem partAt_advances (part : Part) (h : rest <:+ text)
    (hok : partAt c (scanAt c) ctx text (offset text rest) part s = some (.ok next, t)) :
    text.Advances (offset text rest) next := by
  by_cases hpart : part = .declaration
  · subst hpart
    rw [partAt] at hok
    obtain ⟨item, hread⟩ := exists_of_passAt hok
    obtain ⟨stop, hstop, rfl⟩ := exists_of_declarationAt hread
    obtain ⟨found, hfound, hboundary⟩ := declarationEndAt_boundary h
    rw [hfound] at hstop
    obtain ⟨-, hle, hadvances⟩ := hboundary stop (Option.some.inj hstop)
    exact ⟨hadvances.isBoundary, hadvances.le_size, Nat.lt_succ_of_le hle⟩
  · obtain ⟨behind, hbehind⟩ := exists_behind_of_partAt hpart h hok
    exact (partAt_advances_of c ctx part h hbehind
      (fun hdeclaration => absurd hdeclaration hpart) s).2 next t hok

/-- The offset where a scan ends is the one where the scan of what is left ends, and it does
the same. -/
theorem scanAt_eq_scan (c : Setting σ) (ctx : Context) (h : rest <:+ text) (stop : Stop)
    (s : State σ) :
    scanAt c ⟨ctx, text, stop.terminator 0, offset text rest⟩ s =
      perform (offset text <$> scan c (levelAt c s) stop (ctx.site text) rest) s := by
  rw [scan_eq_scanItems]
  have hleads : Leads (Returns fun pos left => pos = offset text left) s.active
      (scanAt c ⟨ctx, text, stop.terminator 0, offset text rest⟩ s)
      (scanItems c (levelAt c s) (scanBelow c (levelAt c s)) stop (ctx.site text) 0 rest s) :=
    (leads_scanAt h ctx stop 0 rfl).mono fun pos y => ScanEnds.returns
  exact hleads.eq_perform

theorem Terminator.exists_eq (terminator : Terminator) :
    ∃ (stop : Stop) (opened : Nat), terminator = stop.terminator opened := by
  cases terminator with
  | textEnd => exact ⟨.textEnd, 0, rfl⟩
  | bracket => exact ⟨.bracket, 0, rfl⟩
  | sectionEnd => exact ⟨.textEnd, 1, rfl⟩

theorem ScanEnds.exists_left {level : Nat} {site : Site} {y : Scan σ Text}
    (h : rest <:+ text) (hends : ScanEnds c level stop site text rest opened pos y) :
    ∃ left, left <:+ rest ∧ pos = offset text left := by
  cases opened with
  | zero =>
      obtain ⟨left, hleft, hpos, -⟩ := hends
      exact ⟨left, hleft, hpos⟩
  | succ outer =>
      obtain ⟨left, hleft, hlength, hpos, -⟩ := hends
      exact ⟨left, List.suffix_of_suffix_length_le hleft h (Nat.le_of_lt hlength), hpos⟩

/-- A scan from a boundary comes to something, and as if nothing were measured. Where it
succeeds it ends at a boundary, and the entities that were active are so again. -/
theorem scanAt_ends (c : Setting σ) (ctx : Context) (h : rest <:+ text)
    (terminator : Terminator) (s : State σ) :
    ∃ result t, scanAt c ⟨ctx, text, terminator, offset text rest⟩ s = some (result, t) ∧
      scanSpot c (scanAt c) ⟨ctx, text, terminator, offset text rest⟩ s = some (result, t) ∧
      ∀ next, result = .ok next → text.IsBoundary next ∧ offset text rest ≤ next ∧
        t.active = s.active := by
  obtain ⟨stop, opened, rfl⟩ := terminator.exists_eq
  have hleads := leads_scanAt (c := c) (s := s) h ctx stop opened rfl
  have hfree :=
    descend_eq_of_ne_none (fun _ _ hcall => extends_scanSpot hcall c) hleads.ne_none
  rcases hscan : scanAt c ⟨ctx, text, stop.terminator opened, offset text rest⟩ s
    with - | ⟨result, t⟩
  · exact absurd hscan hleads.ne_none
  · refine ⟨result, t, rfl, hfree.symm.trans hscan, fun next hresult => ?_⟩
    subst hresult
    rw [hscan] at hleads
    obtain ⟨hactive, y, hends, -⟩ := hleads.exists_of_ok
    obtain ⟨left, hleft, rfl⟩ := hends.exists_left h
    refine ⟨Text.isBoundary_offset (hleft.trans h), ?_, hactive⟩
    rw [Text.offset_trans h hleft]
    exact Nat.le_add_right _ _

theorem itemAt_advances (c : Setting σ) (ctx : Context) {d : Char} {v : Text}
    (h : d :: v <:+ text) (s : State σ) :
    itemAt c (scanAt c) ctx text (offset text (d :: v)) d v s ≠ none ∧
      ∀ next t, itemAt c (scanAt c) ctx text (offset text (d :: v)) d v s =
        some (.ok next, t) →
        text.Advances (offset text (d :: v)) next :=
  GoesOn.advances (leads_itemAt (entitiesLead c _) (sectionsLead c ctx text .textEnd 0 _ s) h)
    h

/-- The scanner makes progress inside its text. Let a position be on a boundary between
characters of a text.
- A scan from there comes to something, whatever ends its text: no slice that it takes is
  missing, and every call in it is smaller, by the levels that are left for entities and then
  by the bytes that are left. So it is the recursion whose calls are free. Where it succeeds it
  ends at a boundary, not in front of where it began. Up to the end of the text, or up to a
  bracket, it is the scan of what is left at the position. References in the text are expanded
  likewise.
- Whatever the scan goes on from behind an item is a boundary further on, and so is what any
  part of the scanner gives that succeeds there. Where its mark stands, a part ends without a
  missing slice.
- The searches for the end of an ignored section, for a reference and for the end of a
  declaration take no missing slice from any boundary, and what they find are boundaries. -/
theorem scanner_progresses (c : Setting σ) (ctx : Context) (text : Text) (pos : Nat)
    (hpos : text.IsBoundary pos) (s : State σ) :
    (∀ terminator, ∃ result t, scanAt c ⟨ctx, text, terminator, pos⟩ s = some (result, t) ∧
      scanSpot c (scanAt c) ⟨ctx, text, terminator, pos⟩ s = some (result, t) ∧
      ∀ next, result = .ok next →
        text.IsBoundary next ∧ next ≤ Text.size text ∧ pos ≤ next ∧ t.active = s.active) ∧
    (∀ stop : Stop, scanAt c ⟨ctx, text, stop.terminator 0, pos⟩ s =
      perform (offset text <$> scan c (levelAt c s) stop (ctx.site text) (text.dropBytes pos))
        s) ∧
    (∀ fail inLiterals, expandAt c fail inLiterals (.start text) s ≠ none ∧
      expandAt c fail inLiterals (.start text) s =
        expandStep c fail inLiterals (expandAt c fail inLiterals) (.start text) s) ∧
    (∀ d v, text.dropBytes pos = d :: v → itemAt c (scanAt c) ctx text pos d v s ≠ none ∧
      ∀ next t, itemAt c (scanAt c) ctx text pos d v s = some (.ok next, t) →
        text.Advances pos next) ∧
    (∀ part : Part, (part.mark <+: text.dropBytes pos →
      partAt c (scanAt c) ctx text pos part s ≠ none) ∧
      ∀ next t, partAt c (scanAt c) ctx text pos part s = some (.ok next, t) →
        text.Advances pos next) ∧
    (∃ found, skipIgnoredAt text 1 pos = some found ∧ ∀ next ∈ found, text.Advances pos next) ∧
    (∃ found, referenceAt text pos = some found ∧ ∀ read ∈ found, text.Advances pos read.2) ∧
    (∃ found, declarationEndAt text pos = some found ∧
      ∀ stop ∈ found, text.IsBoundary stop ∧ pos ≤ stop ∧ text.Advances stop (stop + 1)) := by
  obtain ⟨rest, h, rfl, hrest⟩ := hpos.exists_rest
  rw [hrest]
  refine ⟨fun terminator => ?_, fun stop => scanAt_eq_scan c ctx h stop s,
    fun fail inLiterals => expandAt_start c fail inLiterals text s, fun d v hcons => ?_,
    fun part => ?_,
    skipIgnoredAt_advances h 0, referenceAt_advances h, declarationEndAt_boundary h⟩
  · obtain ⟨result, t, hscan, hfree, hresult⟩ := scanAt_ends c ctx h terminator s
    refine ⟨result, t, hscan, hfree, fun next hnext => ?_⟩
    obtain ⟨hboundary, hle, hactive⟩ := hresult next hnext
    exact ⟨hboundary, hboundary.le_size, hle, hactive⟩
  · subst hcons
    exact itemAt_advances c ctx h s
  · exact ⟨fun hmark => partAt_ne_none c ctx part h hmark s,
      fun next t => partAt_advances part h⟩

/-- Behind a character of two bytes an instruction that does not end is told as one, and no
slice is missing. -/
theorem scanner_progresses_unterminated :
    let c : Setting Recording := ⟨Recording.handler, .ofCatalog [], .standard⟩
    let text : Text := "é<?>"
    text.IsBoundary 2 ∧ ∃ t, scanAt c ⟨⟨[], none⟩, text, .textEnd, 2⟩ (.start .empty) =
      some (.error (.eventSource (.markup [] 1 .unterminatedInstruction)), t) := by
  intro c text
  have hboundary : text.IsBoundary 2 := Text.isBoundary_size ['é'] "<?>".toList
  have hscan : seen (fun left _ => left)
      ((offset text <$> scan c 64 .textEnd ⟨[], none, 0⟩ "<?>") (.start .empty)) =
      .error (.eventSource (.markup [] 1 .unterminatedInstruction)) := by decide +kernel
  obtain ⟨t, hend⟩ := exists_of_seen_eq_error hscan
  have hrest : text.dropBytes 2 = "<?>".toList := Text.dropBytes_size ['é'] "<?>".toList
  have hrun := (scanner_progresses c ⟨[], none⟩ text 2 hboundary (.start .empty)).2.1 .textEnd
  rw [hrest] at hrun
  refine ⟨hboundary, t, hrun.trans ?_⟩
  exact congrArg (fun result => some (ended result)) hend

end Markup
end Doctype
