import Doctype.Proofs.Markup.Nested
import Doctype.Proofs.Markup.Splicing

/-!
Conditional sections in a scan. A section that is included does what its text does, and one
that is ignored does nothing, and in either case the scan goes on behind the section, whatever
is there (`scanItems_conditional`).
-/

namespace Doctype.Markup

variable {σ : Type}

namespace SectionKeyword

def name : SectionKeyword → Text
  | literal keyword => keyword
  | reference name => name

def written : SectionKeyword → Text
  | literal keyword => keyword
  | reference name => writeReference name

end SectionKeyword

def conditional (keyword : SectionKeyword) (body : Text) : Text :=
  "<![".toList ++ (keyword.written ++ '[' :: (body ++ "]]>".toList))

theorem conditional_append (keyword : SectionKeyword) (body rest : Text) :
    conditional keyword body ++ rest =
      "<![".toList ++ (keyword.written ++ '[' :: (body ++ ("]]>".toList ++ rest))) := by
  simp [conditional]

variable {c : Setting σ} {level : Nat} {site siteX : Site} {stop : Stop} {opened : Nat}
  {keyword : SectionKeyword}
  {t x y left r : Text} {s s' sX : State σ}

/-! ### The keyword -/

/-- The start of a section is read up to the bracket behind the keyword. -/
theorem Item.read_sectionStart (hname : Text.isName keyword.name = true) (t : Text) :
    Item.read '<' ('!' :: '[' :: (keyword.written ++ '[' :: t)) =
      .ok (.sectionStart keyword (keyword.written ++ '[' :: t), '[' :: t) := by
  cases keyword with
  | literal word =>
      change Text.isName word = true at hname
      obtain ⟨d, word, rfl⟩ : ∃ d rest, word = d :: rest := by
        refine List.exists_cons_of_ne_nil ?_
        rintro rfl
        cases hname
      have hstart := (isNameStart_of_isName hname).1
      have hd : d ≠ '%' := by
        rintro rfl
        exact absurd hstart (by decide)
      have hblank : isBlank d = false := isBlank_eq_false_of_mem_name hname List.mem_cons_self
      have hread : nameOrEmpty (d :: word ++ '[' :: t) = (d :: word, '[' :: t) := by
        rw [nameOrEmpty, Text.name?_append hname rfl]
        rfl
      rw [List.cons_append] at hread
      simp only [SectionKeyword.written, List.cons_append, Item.read, Text.skipBlanks,
        List.dropWhile_cons, hblank, Bool.false_eq_true, if_false]
      rw [readSectionStart_cons hd, hread]
  | reference name =>
      have htext : writeReference name ++ '[' :: t = '%' :: (name ++ ';' :: '[' :: t) := by
        simp [writeReference]
      have hread : reference? (name ++ ';' :: '[' :: t) = some (name, '[' :: t) :=
        reference?_eq_some_iff.2 ⟨hname, rfl⟩
      simp only [SectionKeyword.written, htext, Item.read]
      change readSectionStart ('%' :: (name ++ ';' :: '[' :: t)) = _
      simp only [readSectionStart, hread]

theorem proceeds_sectionStart (kind : SectionKind) (hname : Text.isName keyword.name = true)
    (hkeyword : ∀ fail, sectionKeyword c fail level keyword s = .ok kind.keyword s')
    (hleft : kind.Leaves t left) :
    Proceeds c level site opened ("<![".toList ++ (keyword.written ++ '[' :: t)) s
      (kind.opened opened) left s' :=
  .sectionStart rfl (Item.read_sectionStart hname t) (hkeyword _)
    (openSection_eq_ok_iff.2 ⟨rfl, t, rfl, hleft⟩)

/-- The state from which a scan goes on behind a reference that is opened to the tree `o` of
its entity, which leaves the requests `asked`. -/
def State.behind (s : State σ) (o : Opened) (asked : List Request) : State σ :=
  { s with expansions := s.expansions + (1 + o.count), asked }

/-- The keyword that a reference stands for is the expansion of the entity without the white
space around it. -/
theorem sectionKeyword_reference {name : Text} {o : Opened} {asked : List Request}
    (hopens : Opens c.resolver s.entities false s.asked
    [.reference name false] (.declared name false o .nil) asked)
    (hfits : (Opened.declared name false o .nil).Fits c.limits level s)
    (fail : Fault → Error) :
    sectionKeyword c fail level (.reference name) s =
      .ok (Text.trim o.written) (s.behind o asked) := by
  obtain ⟨level, rfl⟩ : ∃ n, level = n + 1 := by
    have := hfits.depth
    simp only [Opened.depth] at this
    exact ⟨level - 1, by omega⟩
  have hreplaces : ReplacesWithin c false (level + 1)
      (expandEntity c fail (some (expand c fail false level))) := by
    refine expandEntity_opened ?_
    rintro n ⟨⟩
    exact ⟨_, rfl, expand_opened level⟩
  have hreplace := (hreplaces name s).2 false o .nil asked hopens hfits
  simp only [sectionKeyword]
  rw [bind_apply, hreplace, Nat.add_assoc]
  rfl

/-! ### The section -/

theorem scanItems_included (keyword : SectionKeyword)
    (hname : Text.isName keyword.name = true)
    (hkeyword : ∀ fail, sectionKeyword c fail level keyword s = .ok "INCLUDE" s')
    (hsite : siteX.location = site.location)
    (hx : scan c level .textEnd siteX x s' = .ok r sX) (rest : Text) :
    scanItems c level (scanBelow c level) stop site opened (conditional keyword x ++ rest) s =
      scanItems c level (scanBelow c level) stop site opened rest sX := by
  have hstart : Proceeds c level site opened (conditional keyword x ++ rest) s (opened + 1)
      (x ++ ("]]>".toList ++ rest)) s' :=
        conditional_append keyword _ rest ▸ proceeds_sectionStart .included hname hkeyword rfl
  have hend : Proceeds c level site (opened + 1) ("]]>".toList ++ rest) sX opened rest sX :=
    .sectionEnd rfl
  rw [scan_eq_scanItems] at hx
  have hbody := scanItems_append hsite.symm hx stop (opened + 1) ("]]>".toList ++ rest)
  rw [Nat.zero_add] at hbody
  rw [hstart.scanItems_eq, hbody, hend.scanItems_eq]

theorem scanItems_ignored (keyword : SectionKeyword)
    (hname : Text.isName keyword.name = true)
    (hkeyword : ∀ fail, sectionKeyword c fail level keyword s = .ok "IGNORE" s')
    (hy : Balanced y) (rest : Text) :
    scanItems c level (scanBelow c level) stop site opened (conditional keyword y ++ rest) s =
      scanItems c level (scanBelow c level) stop site opened rest s' := by
  have hstart : Proceeds c level site opened (conditional keyword y ++ rest) s
      opened rest s' :=
    conditional_append keyword _ rest ▸ proceeds_sectionStart .ignored hname hkeyword
      (skipIgnored_eq_some_iff.2 ⟨y, hy, rfl⟩)
  exact hstart.scanItems_eq stop

def State.askedSince (s t : State σ) : List Request :=
  t.asked.drop s.asked.length

theorem scan_behind {o : Opened} {asked : List Request}
    (hsite : siteX.location = site.location)
    (hx : scan c level .textEnd siteX x s = .ok r sX)
    (hroom : sX.expansions = s.expansions ∨
      sX.expansions + (1 + o.count) ≤ c.limits.entityExpansions)
    (hasked : asked = s.asked ∨ c.resolver.IsConstant) :
    scan c level .textEnd site x (s.behind o asked) =
      .ok r (sX.behind o (asked ++ s.askedSince sX)) := by
  rw [scan_eq_scanItems] at hx ⊢
  obtain ⟨k, l, hadvances, hruns⟩ := scanItems_recount hsite.symm hx
  obtain ⟨-, hexpansions, hlater, -⟩ := hadvances
  have hsince : s.askedSince sX = l := by rw [State.askedSince, hlater, List.drop_left]
  rw [State.behind, hruns _ _ (by omega) hasked, State.behind, hexpansions, hsince,
    Nat.add_right_comm]

/-- A section that is included does what its text does on its own, and one that is ignored does
nothing; the scan goes on behind the section, in the state that its text leaves. An ignored
section has no end if and only if no part of the text from its bracket on has more ends of
sections than beginnings. The keyword may be what an entity stands for, with the white space
around it trimmed: then the text is scanned behind the reference, where the entities that are
expanded for the keyword count, too. If there is room for them, and external texts among them
do not change what the resolver answers, this is again what the text does on its own. -/
theorem scanItems_conditional (c : Setting σ) (level : Nat) (stop : Stop) (site : Site)
    (opened : Nat) (rest : Text) (s : State σ) :
    (∀ siteX x r sX, siteX.location = site.location →
      scan c level .textEnd siteX x s = .ok r sX →
      scanItems c level (scanBelow c level) stop site opened
        (conditional (.literal "INCLUDE") x ++ rest) s =
        scanItems c level (scanBelow c level) stop site opened rest sX) ∧
      (∀ y, Balanced y →
        scanItems c level (scanBelow c level) stop site opened
          (conditional (.literal "IGNORE") y ++ rest) s =
          scanItems c level (scanBelow c level) stop site opened rest s) ∧
      (∀ t, skipIgnored 0 t = none ↔ ∀ p, p <+: t → closings p ≤ openings p) ∧
      ∀ name o asked, Text.isName name = true →
        Opens c.resolver s.entities false s.asked
        [.reference name false] (.declared name false o .nil) asked →
          (Opened.declared name false o .nil).Fits c.limits level s →
            (Text.trim o.written = "INCLUDE" → ∀ siteX x r sX, siteX.location = site.location →
              scan c level .textEnd siteX x (s.behind o asked) = .ok r sX →
                scanItems c level (scanBelow c level) stop site opened
                  (conditional (.reference name) x ++ rest) s =
                  scanItems c level (scanBelow c level) stop site opened rest sX) ∧
            (Text.trim o.written = "INCLUDE" → ∀ siteX x r sX, siteX.location = site.location →
              scan c level .textEnd siteX x s = .ok r sX →
                sX.expansions = s.expansions ∨
                  sX.expansions + (1 + o.count) ≤ c.limits.entityExpansions →
                  asked = s.asked ∨ c.resolver.IsConstant →
                    scanItems c level (scanBelow c level) stop site opened
                      (conditional (.reference name) x ++ rest) s =
                      scanItems c level (scanBelow c level) stop site opened rest
                        (sX.behind o (asked ++ s.askedSince sX))) ∧
            (Text.trim o.written = "IGNORE" → ∀ y, Balanced y →
              scanItems c level (scanBelow c level) stop site opened
                (conditional (.reference name) y ++ rest) s =
                scanItems c level (scanBelow c level) stop site opened rest
                  (s.behind o asked)) := by
  refine ⟨?_, ?_, ?_, ?_⟩
  · intro siteX x r sX hsite hx
    exact scanItems_included (.literal "INCLUDE") (by decide) (fun _ => rfl) hsite hx rest
  · intro y hy
    exact scanItems_ignored (.literal "IGNORE") (by decide) (fun _ => rfl) hy rest
  · intro t
    rw [skipIgnored_eq_none_iff]
    simp only [StaysOpen, Nat.zero_add]
  · intro name o asked hname hopens hfits
    have hkeyword := sectionKeyword_reference hopens hfits
    refine ⟨?_, ?_, ?_⟩
    · intro htrim siteX x r sX hsite hx
      rw [htrim] at hkeyword
      exact scanItems_included (.reference name) hname hkeyword hsite hx rest
    · intro htrim siteX x r sX hsite hx hroom hasked
      rw [htrim] at hkeyword
      exact scanItems_included (.reference name) hname hkeyword rfl
        (scan_behind hsite hx hroom hasked) rest
    · intro htrim y hy
      rw [htrim] at hkeyword
      exact scanItems_ignored (.reference name) hname hkeyword hy rest

/-- Sections whose keywords are known, and ones whose keywords `draft` and `off` stand for. -/
theorem scanItems_conditional_draft :
    let c : Setting Recording := ⟨Recording.handler, .ofCatalog [], .standard⟩
    let site : Site := ⟨[], none, 0⟩
    let s : State Recording :=
      ⟨.empty, [("draft", .internal "%on;"), ("on", .internal "INCLUDE"),
      ("off", .internal "IGNORE"), ("nothing", .internal "")], [], 0, []⟩
    let draft : Opened := .declared "on" false (.ofText "INCLUDE") .nil
    let off : Opened := .ofText "IGNORE"
    let x : Text := "%nothing;<?x?>"
    let y : Text := "]><![ <!--<![]]>\"]]>]]"
    let run (t : Text) (s : State Recording) :=
      scanItems c 2 (scanBelow c 2) .textEnd site 0 t s
    ∃ sX, scan c 2 .textEnd site x s = .ok [] sX ∧ sX.expansions = 1 ∧ Balanced y ∧
      Text.trim draft.written = "INCLUDE".toList ∧ Text.trim off.written = "IGNORE".toList ∧
      run (conditional (.literal "INCLUDE") x ++ x) s = run x sX ∧
      run (conditional (.literal "IGNORE") y ++ x) s = run x s ∧
      run (conditional (.reference "draft") x ++ x) s =
        run x { sX with expansions := 3, asked := s.askedSince sX } ∧
      run (conditional (.reference "off") y ++ x) s = run x { s with expansions := 1 } := by
  intro c site s draft off x y run
  have hx : seen (fun r s => (r, s.expansions)) (scan c 2 .textEnd site x s) =
    .ok ([], 1) := by decide +kernel
  obtain ⟨r, sX, hscan, hview⟩ := exists_of_seen_eq_ok hx
  obtain ⟨rfl, hexpansions⟩ := Prod.mk.inj hview
  have hy : Balanced y := by decide +kernel
  have hdraft : Opens c.resolver s.entities false [] [.reference "draft" false]
      (.declared "draft" false draft .nil) [] := by
    have hpieces : pieces false "%on;" = [.reference "on" false] := by decide +kernel
    have hinner : pieces false "INCLUDE" = "INCLUDE".toList.map .char := by decide +kernel
    refine .declared rfl rfl ?_ (by decide) .nil
    rw [hpieces]
    refine .declared rfl rfl ?_ (by decide) .nil
    rw [hinner]
    exact .ofText _
  have hoff : Opens c.resolver s.entities false [] [.reference "off" false]
      (.declared "off" false off .nil) [] := by
    have hpieces : pieces false "IGNORE" = "IGNORE".toList.map .char := by decide +kernel
    refine .declared rfl rfl ?_ (by decide) .nil
    rw [hpieces]
    exact .ofText _
  obtain ⟨hincluded, hignored, -, hbyName⟩ := scanItems_conditional c 2 .textEnd site 0 x s
  obtain ⟨-, hdraft, -⟩ :=
    hbyName "draft" draft [] (by decide) hdraft ⟨by simp [s], by decide, by decide, by decide⟩
  obtain ⟨-, -, hoff⟩ :=
    hbyName "off" off [] (by decide) hoff ⟨by simp [s], by decide, by decide, by decide⟩
  have hroom : sX.expansions + (1 + draft.count) ≤ c.limits.entityExpansions := by
    rw [hexpansions]
    decide
  refine ⟨sX, hscan, hexpansions, hy, by decide, by decide, hincluded site x [] sX rfl hscan,
    hignored y hy, ?_, ?_⟩
  · have hrun := hdraft (by decide) site x [] sX rfl hscan (.inr hroom)
      (.inr (Resolver.isConstant_ofCatalog []))
    rw [State.behind, hexpansions] at hrun
    exact hrun
  · exact hoff (by decide) y hy

end Doctype.Markup
