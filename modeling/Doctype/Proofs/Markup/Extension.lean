import Doctype.Proofs.Markup.Balance
import Doctype.Proofs.Markup.Pieces

/-!
Reading in front of more text. What is read of a text is read in the same way if more text
stands behind it, and that text is then behind what is left (`Item.read_extend`,
`openSection_extend`). Only a name at the very end of a text could be prolonged.
-/

namespace Doctype

variable {t a b v mark before : Text} {d : Char}

namespace Text

theorem length_le_of_breakFrom? (h : breakFrom? mark before t = some (a, b)) :
    mark.length ≤ t.length := by
  fun_induction breakFrom? mark before t with
  | case1 before t after hd => simp [dropPrefix?_eq_some hd]
  | case2 => cases h
  | case3 before c t _ ih => exact (ih h).trans (by simp)

theorem dropPrefix?_extend_eq_none (h : dropPrefix? mark t = none)
    (hlength : mark.length ≤ t.length) (u : Text) : dropPrefix? mark (t ++ u) = none := by
  cases hdrop : dropPrefix? mark (t ++ u) with
  | none => rfl
  | some rest =>
      have hprefix : mark <+: t ++ u := ⟨rest, (dropPrefix?_eq_some hdrop).symm⟩
      obtain ⟨rest', rfl⟩ :=
        List.prefix_of_prefix_length_le hprefix (List.prefix_append t u) hlength
      rw [dropPrefix?_append] at h
      cases h

theorem breakFrom?_extend (h : breakFrom? mark before t = some (a, b)) (u : Text) :
    breakFrom? mark before (t ++ u) = some (a, b ++ u) := by
  fun_induction breakFrom? mark before t with
  | case1 before t after hd =>
      cases h
      obtain rfl := dropPrefix?_eq_some hd
      rw [List.append_assoc, breakFrom?.eq_def, dropPrefix?_append]
  | case2 => cases h
  | case3 before c t hd ih =>
      have hlength : mark.length ≤ (c :: t).length :=
        (length_le_of_breakFrom? h).trans (by simp)
      rw [breakFrom?.eq_def, dropPrefix?_extend_eq_none hd hlength]
      exact ih h

theorem skipBlanks_extend (h : skipBlanks t = d :: v) (u : Text) :
    skipBlanks (t ++ u) = d :: (v ++ u) := by
  obtain ⟨hd, s, rfl, hs⟩ := skipBlanks_eq_iff.1 h
  rw [List.append_assoc]
  exact skipBlanks_append hs hd

theorem skipBlanks_extend_nil (h : skipBlanks t = []) (u : Text) :
    skipBlanks (t ++ u) = skipBlanks u := by
  obtain ⟨-, s, rfl, hs⟩ := skipBlanks_eq_iff.1 h
  rw [List.append_nil, skipBlanks, List.dropWhile_append_of_pos hs]
  rfl

end Text

namespace Markup

variable {rest : Text} {depth : Nat}

theorem declarationFrom?_extend {quote : Option Char} {done : Text}
    (h : declarationFrom? quote done t = some (a, b)) (u : Text) :
    declarationFrom? quote done (t ++ u) = some (a, b ++ u) := by
  fun_induction declarationFrom? quote done t with
  | case1 => cases h
  | case2 quote done c t hc =>
      cases h
      rw [List.cons_append, declarationFrom?, if_pos hc]
  | case3 quote done c t hc ih =>
      rw [List.cons_append, declarationFrom?, if_neg hc]
      exact ih h

theorem reference?_extend {name : Text} (h : reference? t = some (name, rest)) (u : Text) :
    reference? (t ++ u) = some (name, rest ++ u) := by
  obtain ⟨hname, rfl⟩ := reference?_eq_some_iff.1 h
  exact reference?_eq_some_iff.2 ⟨hname, by simp⟩

/-- A name is read in the same way if something is behind it. -/
theorem nameOrEmpty_extend {name : Text} (h : nameOrEmpty t = (name, rest))
    (hrest : rest ≠ []) (u : Text) : nameOrEmpty (t ++ u) = (name, rest ++ u) := by
  unfold nameOrEmpty at h ⊢
  cases hname : Text.name? t with
  | some p =>
      rw [hname] at h
      cases h
      obtain ⟨rfl, hp, hends⟩ := Text.name?_eq_some_iff.1 hname
      obtain ⟨c, rest, rfl⟩ := List.exists_cons_of_ne_nil hrest
      have hread : Text.name? (name ++ (c :: rest ++ u)) = some (name, c :: rest ++ u) :=
        Text.name?_append hp hends
      rw [List.append_assoc, hread]
      rfl
  | none =>
      rw [hname] at h
      cases h
      obtain ⟨c, rest, rfl⟩ := List.exists_cons_of_ne_nil hrest
      have hstart : isNameStart c = false := by
        cases hc : isNameStart c with
        | false => rfl
        | true => simp [Text.name?, hc] at hname
      simp [Text.name?, hstart]

/-! ### Sections -/

theorem skipIgnored_extend (h : skipIgnored depth t = some rest) (u : Text) :
    skipIgnored depth (t ++ u) = some (rest ++ u) := by
  obtain ⟨y, hopen, hequal, rfl⟩ := exists_of_skipIgnored h
  rw [List.append_assoc, List.append_assoc]
  exact skipIgnored_append hopen hequal (rest ++ u)

def SectionKind.keyword : SectionKind → Text
  | included => "INCLUDE"
  | ignored => "IGNORE"

theorem SectionKind.ofKeyword?_eq_some {keyword : Text} {kind : SectionKind}
    (h : ofKeyword? keyword = some kind) : keyword = kind.keyword := by
  unfold ofKeyword? at h
  split at h
  · cases h
    assumption
  · split at h
    · cases h
      assumption
    · cases h

/-- What is left when a section is opened: an included one leaves what is behind its bracket,
an ignored one what is behind its end. -/
def SectionKind.Leaves (body left : Text) : SectionKind → Prop
  | included => left = body
  | ignored => skipIgnored 0 body = some left

/-- A section is opened if its bracket follows the keyword. -/
theorem openSection_eq_ok_iff {item start keyword left : Text} {kind : SectionKind} :
    openSection item start keyword rest = .ok (kind, left) ↔ keyword = kind.keyword ∧
      ∃ body, Text.skipBlanks rest = '[' :: body ∧ kind.Leaves body left := by
  constructor
  · intro h
    unfold openSection at h
    split at h
    · next body hbody =>
      split at h
      · next hkeyword =>
        cases h
        exact ⟨SectionKind.ofKeyword?_eq_some hkeyword, _, hbody, rfl⟩
      · next hkeyword =>
        split at h
        · next after hafter =>
          cases h
          exact ⟨SectionKind.ofKeyword?_eq_some hkeyword, _, hbody, hafter⟩
        · cases h
      · cases h
    · cases h
  · rintro ⟨rfl, body, hbody, hleft⟩
    unfold openSection
    rw [hbody]
    cases kind with
    | included =>
        cases hleft
        rfl
    | ignored =>
        change skipIgnored 0 body = some left at hleft
        have hkind : SectionKind.ofKeyword? SectionKind.ignored.keyword = some .ignored := rfl
        simp only [hkind, hleft]

theorem openSection_extend {item start keyword left : Text} {kind : SectionKind}
    (h : openSection item start keyword rest = .ok (kind, left)) (item' start' u : Text) :
    openSection item' start' keyword (rest ++ u) = .ok (kind, left ++ u) := by
  obtain ⟨hkeyword, body, hbody, hleft⟩ := openSection_eq_ok_iff.1 h
  rw [openSection_eq_ok_iff]
  refine ⟨hkeyword, body ++ u, Text.skipBlanks_extend hbody u, ?_⟩
  cases kind with
  | included => exact congrArg (· ++ u) hleft
  | ignored => exact skipIgnored_extend hleft u

theorem ne_nil_of_openSection {item start keyword left : Text} {kind : SectionKind}
    (h : openSection item start keyword rest = .ok (kind, left)) : rest ≠ [] := by
  rintro rfl
  cases h

/-! ### Items -/

namespace Item

/-- The item as it is read with more text behind: where a section starts, more is left. -/
def extend (u : Text) : Item → Item
  | sectionStart keyword start => sectionStart keyword (start ++ u)
  | item => item

def isSection : Item → Bool
  | sectionStart _ _ => true
  | _ => false

theorem readSectionStart_cons (hd : d ≠ '%') (t : Text) :
    readSectionStart (d :: t) =
      .ok (.sectionStart (.literal (nameOrEmpty (d :: t)).1) (d :: t),
        (nameOrEmpty (d :: t)).2) := by
  unfold readSectionStart
  split
  · next heq => exact absurd (List.cons.inj heq).1 hd
  · rfl

theorem isSection_of_readSectionStart {item : Item}
    (h : readSectionStart t = .ok (item, rest)) : item.isSection = true := by
  unfold readSectionStart at h
  split at h
  · split at h
    · cases h
      rfl
    · cases h
  · cases h
    rfl

theorem readSectionStart_extend {item : Item} (h : readSectionStart t = .ok (item, rest))
    (hrest : rest ≠ []) (u : Text) :
    readSectionStart (t ++ u) = .ok (item.extend u, rest ++ u) := by
  cases t with
  | nil =>
      cases h
      exact absurd rfl hrest
  | cons c t =>
      by_cases hc : c = '%'
      · subst hc
        simp only [readSectionStart, List.cons_append] at h ⊢
        split at h
        · next hreference =>
          cases h
          rw [reference?_extend hreference]
          rfl
        · cases h
      · rw [readSectionStart_cons hc] at h
        cases h
        have hname := nameOrEmpty_extend (t := c :: t) rfl hrest u
        rw [List.cons_append] at hname ⊢
        rw [readSectionStart_cons hc, hname]
        rfl

theorem extend_ofDeclaration {item : Item} (h : ofDeclaration t = .ok item) (u : Text) :
    item.extend u = item := by
  unfold ofDeclaration at h
  dsimp only at h
  split at h
  · cases h
    rfl
  · cases h

theorem extend_ofInstruction {item : Item} (h : ofInstruction t = .ok item) (u : Text) :
    item.extend u = item := by
  unfold ofInstruction at h
  split at h
  · cases h
    split <;> rfl
  · cases h

theorem read_of_declaration? {body inside : Text} {item : Item}
    (hcomment : ∀ v, body ≠ '-' :: '-' :: v)
    (hsection : ∀ v, body ≠ '[' :: v) (hend : declaration? body = some (inside, rest))
    (hitem : ofDeclaration inside = .ok item) : read '<' ('!' :: body) = .ok (item, rest) := by
  rw [read, hend]
  · simp only [hitem]
  · exact hcomment
  · exact hsection

theorem ne_comment_extend {body : Text} (hend : '>' ∈ body) (h : ∀ v, body ≠ '-' :: '-' :: v)
    (u : Text) : ∀ v, body ++ u ≠ '-' :: '-' :: v := by
  rcases body with - | ⟨c, - | ⟨d, w⟩⟩
  · cases hend
  · rintro v ⟨⟩
    cases List.mem_singleton.1 hend
  · rintro v ⟨⟩
    exact h w rfl

theorem ne_section_extend {body : Text} (hend : '>' ∈ body) (h : ∀ v, body ≠ '[' :: v)
    (u : Text) : ∀ v, body ++ u ≠ '[' :: v := by
  rcases body with - | ⟨c, w⟩
  · cases hend
  · rintro v ⟨⟩
    exact h w rfl

/-- An item is read in the same way if more text stands behind it. What starts a section must
have something behind its keyword already. -/
theorem read_extend {item : Item} (h : read d t = .ok (item, rest))
    (hrest : item.isSection = true → rest ≠ []) (u : Text) :
    read d (t ++ u) = .ok (item.extend u, rest ++ u) := by
  unfold read at h
  split at h
  · split at h
    · next hbreak =>
      cases h
      simp only [List.cons_append, read, Text.breakAt?, Text.breakFrom?_extend hbreak]
      rfl
    · cases h
  · split at h
    · next hbreak =>
      split at h
      · next hitem =>
        cases h
        simp only [List.cons_append, read, Text.breakAt?, Text.breakFrom?_extend hbreak, hitem,
          extend_ofInstruction hitem]
      · cases h
    · cases h
  · next body =>
    have hne : Text.skipBlanks body ≠ [] := by
      intro hnil
      rw [hnil] at h
      cases h
      exact absurd rfl (hrest rfl)
    obtain ⟨c, v, hskip⟩ := List.exists_cons_of_ne_nil hne
    have hsection := isSection_of_readSectionStart h
    rw [List.cons_append, List.cons_append, read,
      Text.skipBlanks_extend hskip, ← List.cons_append, ← hskip]
    exact readSectionStart_extend h (hrest hsection) u
  · next body hcomment hsection =>
    split at h
    · next hend =>
      split at h
      · next hitem =>
        cases h
        have hmem : '>' ∈ body := by
          have hbody := declarationFrom?_eq_some hend
          rw [List.reverse_nil, List.nil_append] at hbody
          simp [hbody]
        rw [List.cons_append, extend_ofDeclaration hitem]
        exact read_of_declaration? (ne_comment_extend hmem hcomment u)
          (ne_section_extend hmem hsection u) (declarationFrom?_extend hend u) hitem
      · cases h
    · cases h
  · split at h
    · next hreference =>
      cases h
      simp only [read, reference?_extend hreference]
      rfl
    · cases h
  · cases h

end Item

end Markup
end Doctype
