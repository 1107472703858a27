import Doctype.Proofs.Markup.Extension
import Doctype.Proofs.Markup.Following

/-!
Scanning texts that are put together. A scan proceeds item by item (`Proceeds`), and an item is
scanned in the same way if more text stands behind it. So where a text is scanned on its own,
the scan of a longer text that begins with it goes on behind it, in the state that it leaves
(`scanItems_append`). A reference between declarations to an entity that is known does what the
text of the entity does in its place (`scanItems_inPlace`).
-/

namespace Doctype.Markup

variable {σ : Type}

/-! ### One item -/

def SectionKind.opened : SectionKind → Nat → Nat
  | included, opened => opened + 1
  | ignored, opened => opened

theorem SectionKind.opened_add (kind : SectionKind) (opened more : Nat) :
    kind.opened opened + more = kind.opened (opened + more) := by
  cases kind with
  | included => exact Nat.add_right_comm opened 1 more
  | ignored => rfl

/-- From a text with a number of open sections, and a state, a scan comes to what is left of
the text, the sections that are open there and the state behind the first item, or behind the
end of a section. -/
inductive Proceeds (c : Setting σ) (level : Nat) (site : Site) :
    Nat → Text → State σ → Nat → Text → State σ → Prop
  | sectionEnd {opened : Nat} {t rest : Text} {s : State σ} :
      Text.skipBlanks t = "]]>".toList ++ rest →
      Proceeds c level site (opened + 1) t s opened rest s
  | sectionStart {opened : Nat} {t v start word rest left : Text} {d : Char}
      {keyword : SectionKeyword}
      {kind : SectionKind} {s s' : State σ} : Text.skipBlanks t = d :: v →
        Item.read d v = .ok (.sectionStart keyword start, rest) →
          sectionKeyword c (site.error start) level keyword s = .ok word s' →
            openSection (d :: v) start word rest = .ok (kind, left) →
              Proceeds c level site opened t s (kind.opened opened) left s'
  | item {opened : Nat} {t v rest : Text} {d : Char} {item : Item} {s s' : State σ} :
      Text.skipBlanks t = d :: v → Item.read d v = .ok (item, rest) → item.isSection = false →
        scanItem c (site.error (d :: v)) site level (scanBelow c level) item s = .ok () s' →
          Proceeds c level site opened t s opened rest s'

variable {c : Setting σ} {level : Nat} {site site' : Site} {stop : Stop} {opened opened' : Nat}
  {t u v rest r : Text} {s s' : State σ} {d : Char}

theorem Item.ne_bracket_of_read {item : Item} (h : Item.read d v = .ok (item, rest)) :
    d ≠ ']' := by
  rintro rfl
  cases h

theorem sectionEnd?_eq_some_iff :
    sectionEnd? opened t = some rest ↔ 0 < opened ∧ t = "]]>".toList ++ rest := by
  unfold sectionEnd?
  split
  · next hopened =>
    constructor
    · exact fun h => ⟨hopened, Text.dropPrefix?_eq_some h⟩
    · rintro ⟨-, rfl⟩
      exact Text.dropPrefix?_append _ _
  · next hopened =>
    constructor
    · rintro ⟨⟩
    · rintro ⟨h, -⟩
      exact absurd h hopened

theorem sectionEnd?_eq_none (hd : d ≠ ']') (opened :
    Nat) (v : Text) : sectionEnd? opened (d :: v) = none := by
  rw [Option.eq_none_iff_forall_ne_some]
  intro rest h
  exact hd (List.cons.inj (sectionEnd?_eq_some_iff.1 h).2).1

theorem Stop.isAt_eq_false (hd : d ≠ ']') (stop :
    Stop) (opened : Nat) : stop.isAt opened d = false := by
  simp [Stop.isAt, hd]

theorem scanStep_sectionEnd (deeper : Option (Site → Text → Scan σ Unit)) (stop : Stop)
    (next : Nat → Text → Scan σ Text) (opened : Nat) (rest : Text) :
    scanStep c level deeper stop site next (opened + 1) ("]]>".toList ++ rest) =
      next opened rest := by
  have hend : sectionEnd? (opened + 1) ("]]>".toList ++ rest) = some rest :=
    sectionEnd?_eq_some_iff.2 ⟨Nat.succ_pos opened, rfl⟩
  have hstop : stop.isAt (opened + 1) ']' = false := by simp [Stop.isAt]
  change scanStep c level deeper stop site next (opened + 1) (']' :: (']' :: '>' :: rest)) = _
  change sectionEnd? (opened + 1) (']' :: (']' :: '>' :: rest)) = _ at hend
  simp only [scanStep, hstop, Bool.false_eq_true, if_false, hend, Nat.add_sub_cancel]

theorem scanStep_item {item : Item} (deeper : Option (Site → Text → Scan σ Unit)) (stop : Stop)
    (next : Nat → Text → Scan σ Text) (opened : Nat) (hread : Item.read d v = .ok (item, rest))
    (hsection : item.isSection = false) :
    scanStep c level deeper stop site next opened (d :: v) = (do
      scanItem c (site.error (d :: v)) site level deeper item
      next opened rest) := by
  have hd := Item.ne_bracket_of_read hread
  simp only [scanStep, Stop.isAt_eq_false hd, Bool.false_eq_true, if_false,
    sectionEnd?_eq_none hd, hread]
  cases item with
  | sectionStart keyword start => cases hsection
  | _ => rfl

/-- Behind an item the scan goes on with what is left. -/
theorem Proceeds.scanItems_eq (h : Proceeds c level site opened t s opened' rest s')
    (stop : Stop) :
    scanItems c level (scanBelow c level) stop site opened t s =
      scanItems c level (scanBelow c level) stop site opened' rest s' := by
  rw [Markup.scanItems_eq]
  cases h with
  | sectionEnd hskip => rw [hskip, scanStep_sectionEnd]
  | @sectionStart _ _ _ _ _ _ _ _ _ kind _ _ hskip hread hkeyword hopen =>
      have hd := Item.ne_bracket_of_read hread
      rw [hskip]
      simp only [scanStep, Stop.isAt_eq_false hd, Bool.false_eq_true, if_false,
        sectionEnd?_eq_none hd, hread]
      rw [bind_apply, hkeyword]
      simp only [hopen]
      cases kind <;> rfl
  | item hskip hread hsection hitem =>
      rw [hskip, scanStep_item _ _ _ _ hread hsection, bind_apply, hitem]

theorem Proceeds.length_lt (h : Proceeds c level site opened t s opened' rest s') :
    rest.length < t.length := by
  have hskipped := (Text.skipBlanks_suffix t).length_le
  cases h with
  | sectionEnd hskip =>
      rw [hskip, List.length_append] at hskipped
      exact Nat.lt_of_lt_of_le (Nat.lt_add_of_pos_left (by decide)) hskipped
  | sectionStart hskip hread _ hopen =>
      rw [hskip, List.length_cons] at hskipped
      have := Item.read_length hread
      have := openSection_length hopen
      omega
  | item hskip hread =>
      rw [hskip, List.length_cons] at hskipped
      have := Item.read_length hread
      omega

theorem exists_proceeds_of_unread {next : Nat → Text → Scan σ Text} {f : Failure}
    (hskip : Text.skipBlanks t = d :: v) (hread : Item.read d v = .error f)
    (h : scanStep c level (scanBelow c level) .textEnd site next opened (d :: v)
      s = .ok r s') :
    ∃ opened₁ rest s₁, Proceeds c level site opened t s opened₁ rest s₁ := by
  simp only [scanStep, Stop.isAt, reduceCtorEq, decide_false, Bool.false_and,
    Bool.false_eq_true, if_false] at h
  cases hend : sectionEnd? opened (d :: v) with
  | none =>
      simp only [hend, hread] at h
      cases h
  | some rest =>
      obtain ⟨hopened, hrest⟩ := sectionEnd?_eq_some_iff.1 hend
      obtain ⟨opened, rfl⟩ := Nat.exists_eq_add_one_of_ne_zero hopened.ne'
      exact ⟨opened, rest, s, .sectionEnd (hskip.trans hrest)⟩

theorem exists_proceeds_of_sectionStart {next : Nat → Text → Scan σ Text}
    {keyword : SectionKeyword} {start : Text} (hskip : Text.skipBlanks t = d :: v)
    (hread : Item.read d v = .ok (.sectionStart keyword start, rest))
    (h : scanStep c level (scanBelow c level) .textEnd site next opened (d :: v)
      s = .ok r s') :
    ∃ opened₁ rest s₁, Proceeds c level site opened t s opened₁ rest s₁ := by
  have hd := Item.ne_bracket_of_read hread
  simp only [scanStep, Stop.isAt_eq_false hd, Bool.false_eq_true, if_false,
    sectionEnd?_eq_none hd, hread] at h
  obtain ⟨word, s₁, hkeyword, h⟩ := bind_eq_ok h
  cases hopen : openSection (d :: v) start word rest with
  | error f =>
      rw [hopen] at h
      cases h
  | ok p => exact ⟨_, _, s₁, .sectionStart hskip hread hkeyword hopen⟩

/-- A scan that succeeds at the end of a text is there already, or it proceeds. -/
theorem exists_proceeds
    (h : scanItems c level (scanBelow c level) .textEnd site opened t s = .ok r s') :
    (Text.skipBlanks t = [] ∧ opened = 0 ∧ s' = s) ∨
      ∃ opened₁ rest s₁, Proceeds c level site opened t s opened₁ rest s₁ := by
  rw [Markup.scanItems_eq] at h
  cases hskip : Text.skipBlanks t with
  | nil =>
      rw [hskip, scanStep] at h
      cases opened with
      | zero =>
          cases h
          exact .inl ⟨rfl, rfl, rfl⟩
      | succ opened => cases h
  | cons d v =>
      right
      rw [hskip] at h
      cases hread : Item.read d v with
      | error f => exact exists_proceeds_of_unread hskip hread h
      | ok p =>
          obtain ⟨item, rest⟩ := p
          cases item with
          | sectionStart keyword start => exact exists_proceeds_of_sectionStart hskip hread h
          | _ =>
              rw [scanStep_item _ _ _ _ hread rfl] at h
              obtain ⟨_, s₁, hitem, -⟩ := bind_eq_ok h
              exact ⟨opened, rest, s₁, .item hskip hread rfl hitem⟩

/-- An item is scanned in the same way if more text stands behind it and more sections are
open. -/
theorem Proceeds.extend (h : Proceeds c level site opened t s opened' rest s') (more : Nat)
    (u : Text) :
    Proceeds c level site (opened + more) (t ++ u) s (opened' + more) (rest ++ u) s' := by
  cases h with
  | sectionEnd hskip =>
      rw [Nat.add_right_comm]
      exact .sectionEnd (Text.skipBlanks_extend hskip u)
  | sectionStart hskip hread hkeyword hopen =>
      have hne := ne_nil_of_openSection hopen
      rw [SectionKind.opened_add]
      exact .sectionStart (Text.skipBlanks_extend hskip u)
        (Item.read_extend hread (fun _ => hne) u)
        ((follows_sectionKeyword _ _ le_rfl _).eq_ok hkeyword) (openSection_extend hopen _ _ u)
  | @item _ _ v rest d item _ _ hskip hread hsection hitem =>
      have hextend : item.extend u = item := by
        cases item with
        | sectionStart keyword start => cases hsection
        | _ => rfl
      have hread' := Item.read_extend hread (by simp [hsection]) u
      rw [hextend] at hread'
      exact .item (Text.skipBlanks_extend hskip u) hread' hsection
        ((follows_scanItem _ _ rfl le_rfl _).eq_ok hitem)

/-! ### Texts behind one another -/

theorem scanItems_of_blank (h : Text.skipBlanks t = []) (u : Text) :
    scanItems c level (scanBelow c level) stop site opened (t ++ u) =
      scanItems c level (scanBelow c level) stop site opened u := by
  rw [Markup.scanItems_eq, Text.skipBlanks_extend_nil h, ← Markup.scanItems_eq]

/-- Behind a text that is scanned on its own, a scan goes on in the state that the text
leaves. -/
theorem scanItems_append (hsite : site'.location = site.location)
    (h : scanItems c level (scanBelow c level) .textEnd site opened t s = .ok r s')
    (stop : Stop) (more : Nat) (u : Text) :
    scanItems c level (scanBelow c level) stop site' (opened + more) (t ++ u) s =
      scanItems c level (scanBelow c level) stop site' more u s' := by
  replace h := (follows_scanItems hsite le_rfl .textEnd opened t).eq_ok h
  -- every item leaves less of the text, and at its end no section of it is open
  induction hn : t.length using Nat.strong_induction_on generalizing t opened s with
  | h n ih =>
      obtain ⟨hblank, rfl, rfl⟩ | ⟨opened₁, rest, s₁, hproceeds⟩ := exists_proceeds h
      · rw [scanItems_of_blank hblank, Nat.zero_add]
      · rw [(hproceeds.extend more u).scanItems_eq]
        rw [hproceeds.scanItems_eq] at h
        exact ih rest.length (hn ▸ hproceeds.length_lt) h rfl

/-! ### References in place -/

theorem scanItems_recount (hsite : site'.location = site.location)
    (h : scanItems c level (scanBelow c level) stop site opened t s = .ok r s') :
    ∃ k l, s.Advances c k l s' ∧ ∀ n m, k = 0 ∨ n + k ≤ c.limits.entityExpansions →
      m = s.asked ∨ c.resolver.IsConstant →
        scanItems c level (scanBelow c level) stop site' opened t
            { s with expansions := n, asked := m } =
          .ok r { s' with expansions := n + k, asked := m ++ l } := by
  obtain ⟨k, l, hadvances, hruns⟩ := follows_scanItems hsite le_rfl stop opened t s r s' h
  refine ⟨k, l, hadvances, fun n m hroom hasked => ?_⟩
  have hallows : State.Allows c k s { s with expansions := n, asked := m } :=
    ⟨rfl, rfl, List.Subset.refl _, hroom, hasked⟩
  rw [hruns _ hallows]
  simp only [State.onward, hadvances.active]

theorem scanItems_oneFewer (hsite : site'.location = site.location) {n : Nat}
    (hn : s.expansions = n + 1)
    (h : scanItems c level (scanBelow c level) stop site opened t s = .ok r s') :
    ∃ m, s'.expansions = m + 1 ∧
      scanItems c level (scanBelow c level) stop site' opened t { s with expansions := n } =
        .ok r { s' with expansions := m } := by
  obtain ⟨k, l, hadvances, hruns⟩ := scanItems_recount hsite h
  obtain ⟨-, hexpansions, hasked, hbounded⟩ := hadvances
  refine ⟨n + k, by omega, ?_⟩
  rw [hruns n s.asked (by omega) (.inl rfl), ← hasked]

/-- What a reference to a known entity does is what its text does in its place, and one
expansion. -/
theorem exists_scanItems_of_scanEntity {name : Text} {fail : Fault → Error}
    (hsite : site'.location = site.location)
    (hname : s.entities.lookup name = some (.internal v))
    (h : scanEntity c fail site (scanBelow c level) name s = .ok () s') :
    ∃ r n, s'.expansions = n + 1 ∧
      scanItems c level (scanBelow c level) .textEnd site' 0 v s =
        .ok r { s' with expansions := n } := by
  unfold scanEntity at h
  rw [get_bind, hname] at h
  obtain ⟨inside, s₁, henter, h⟩ := bind_eq_ok h
  obtain ⟨hdeeper, rfl⟩ := enter_eq_ok henter
  obtain ⟨_, s₂, hinside, hleave⟩ := bind_eq_ok h
  cases hleave
  obtain ⟨level, rfl⟩ : ∃ n, level = n + 1 := by
    cases level with
    | zero => cases hdeeper
    | succ level => exact ⟨level, rfl⟩
  cases hdeeper
  obtain ⟨r, s₃, hscan, hdone⟩ := bind_eq_ok hinside
  cases hdone
  rw [scan_eq_scanItems] at hscan
  -- the nested scan has one level fewer to go and one entity more that is active
  have hinner : site'.location = (site.ofEntity name v).location := hsite
  obtain ⟨k, l, hadvances, hruns⟩ :=
    follows_scanItems hinner (Nat.le_succ level) .textEnd 0 v _ r s₂ hscan
  obtain ⟨hactive, hexpansions, hasked, hbounded⟩ := hadvances
  dsimp only at hactive hexpansions hasked
  have hallows : State.Allows c k
      { s with active := s.active ++ [name], expansions := s.expansions + 1 } s := by
    refine ⟨rfl, rfl, List.subset_append_left _ _, ?_, .inl rfl⟩
    omega
  refine ⟨r, s.expansions + k, ?_, ?_⟩
  · change s₂.expansions = _
    omega
  · rw [hruns s hallows]
    simp only [State.onward, hactive, List.dropLast_concat, hasked]

theorem scanItems_reference {name : Text} (hname : Text.isName name = true) (t : Text) :
    scanItems c level (scanBelow c level) stop site opened (writeReference name ++ t) =
      (do
        scanEntity c (site.error (writeReference name ++ t)) site (scanBelow c level) name
        scanItems c level (scanBelow c level) stop site opened t) := by
  have htext : writeReference name ++ t = '%' :: (name ++ ';' :: t) := by simp [writeReference]
  have hread : Item.read '%' (name ++ ';' :: t) = .ok (.reference name, t) := by
    simp only [Item.read, reference?_eq_some_iff.2 ⟨hname, rfl⟩]
  have hskip : Text.skipBlanks ('%' :: (name ++ ';' :: t)) = '%' :: (name ++ ';' :: t) := rfl
  rw [Markup.scanItems_eq, htext, hskip, scanStep_item _ _ _ _ hread rfl]
  rfl

/-- A reference between declarations to an entity that is known there does what the text of the
entity does in its place: where the scan of a text with the reference succeeds, the scan of the
text with the replacement in its place comes to the same state, with one expansion fewer. -/
theorem scanItems_inPlace {a b name endA : Text} {siteA siteV : Site} {sA : State σ}
    (hsiteA : siteA.location = site.location) (hsiteV : siteV.location = site.location)
    (hname : Text.isName name = true) (ha : scan c level .textEnd siteA a s = .ok endA sA)
    (hentity : sA.entities.lookup name = some (.internal v))
    (h : scanItems c level (scanBelow c level) stop site opened
      (a ++ (writeReference name ++ b)) s = .ok r s') :
    ∃ n, s'.expansions = n + 1 ∧
      scanItems c level (scanBelow c level) stop siteV opened (a ++ (v ++ b)) s =
        .ok r { s' with expansions := n } := by
  rw [scan_eq_scanItems] at ha
  have happend {site : Site} (hsite : siteA.location = site.location) (u : Text) :
      scanItems c level (scanBelow c level) stop site opened (a ++ u) s =
        scanItems c level (scanBelow c level) stop site opened u sA := by
    rw [← Nat.zero_add opened, scanItems_append hsite.symm ha, Nat.zero_add]
  rw [happend hsiteA, scanItems_reference hname] at h
  obtain ⟨_, s₁, hreference, hb⟩ := bind_eq_ok h
  obtain ⟨endV, n, hn, hv⟩ := exists_scanItems_of_scanEntity hsiteV hentity hreference
  obtain ⟨m, hm, hb⟩ := scanItems_oneFewer hsiteV hn hb
  refine ⟨m, hm, ?_⟩
  rw [happend (hsiteA.trans hsiteV.symm), ← Nat.zero_add opened, scanItems_append rfl hv, hb]

/-- The entity `p` declares `q` and refers to it, and so does the text behind the reference to
`p`. -/
theorem scanItems_inPlace_declaring :
    let c : Setting Recording := ⟨Recording.handler, .ofCatalog [], .standard⟩
    let site : Site := ⟨[], none, 0⟩
    let a : Text := "<!ENTITY % p \"<!ENTITY &#37; q '<?q?>'>&#37;q;\">"
    let v : Text := "<!ENTITY % q '<?q?>'>%q;"
    let b : Text := "%q;"
    ∃ sA s', scan c 2 .textEnd site a (.start .empty) = .ok [] sA ∧
      sA.entities.lookup ['p'] = some (.internal v) ∧
      scanItems c 2 (scanBelow c 2) .textEnd site 0 (a ++ (writeReference ['p'] ++ b))
        (.start .empty) = .ok [] s' ∧ s'.expansions = 3 ∧
      scanItems c 2 (scanBelow c 2) .textEnd site 0 (a ++ (v ++ b)) (.start .empty) =
        .ok [] { s' with expansions := 2 } := by
  intro c site a v b
  have ha : seen (fun r s => (r, s.entities.lookup ['p']))
      (scan c 2 .textEnd site a (.start .empty)) = .ok ([], some (.internal v)) := by
    decide +kernel
  have hreference : seen (fun r s => (r, s.expansions))
      (scan c 2 .textEnd site (a ++ (writeReference ['p'] ++ b)) (.start .empty)) =
        .ok ([], 3) := by
    decide +kernel
  obtain ⟨r, sA, hscanA, hview⟩ := exists_of_seen_eq_ok ha
  obtain ⟨rfl, hentity⟩ := Prod.mk.inj hview
  obtain ⟨r, s', hscan, hview⟩ := exists_of_seen_eq_ok hreference
  obtain ⟨rfl, hexpansions⟩ := Prod.mk.inj hview
  rw [scan_eq_scanItems] at hscan
  obtain ⟨n, hn, hv⟩ := scanItems_inPlace rfl rfl (by decide) hscanA hentity hscan
  obtain rfl : n = 2 := by omega
  exact ⟨sA, s', hscanA, hentity, hscan, hexpansions, hv⟩

end Doctype.Markup
