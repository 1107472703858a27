import Doctype.Proofs.Content.Acceptance
import Doctype.Proofs.Declaration.Alphabet
import Doctype.Proofs.Text.Declaration
import Doctype.Source

/-!
What is read of markup are excerpts of it: an item and what it leaves (`Item.over_of_read`),
the pieces of a body (`over_of_mem_pieces`) and the event that a body tells
(`DeclarationKind.over_of_read`) are over the alphabet of their text. What is left behind the
front of a document is the end of it (`Source.readDoctype_suffix`).
-/

namespace Doctype.Markup

variable {A : Char → Prop} {t rest : Text}

/-! ### Items -/

def Item.Over (A : Char → Prop) : Item → Prop
  | comment text => Text.Over A text
  | instruction target data => Text.Over A target ∧ Text.Over A data
  | declaration _ body => Text.Over A body
  | _ => True

theorem over_of_reference? {name : Text} (ht : Text.Over A t)
    (h : reference? t = some (name, rest)) : Text.Over A name ∧ Text.Over A rest := by
  rw [reference?_eq_some h, Text.over_append, Text.over_cons] at ht
  exact ⟨ht.1, ht.2.2⟩

theorem over_of_nameOrEmpty (ht : Text.Over A t) :
    Text.Over A (nameOrEmpty t).1 ∧ Text.Over A (nameOrEmpty t).2 := by
  rw [← nameOrEmpty_append t] at ht
  exact Text.over_append.1 ht

theorem over_of_breakAt? {mark before : Text} (ht : Text.Over A t)
    (h : Text.breakAt? mark t = some (before, rest)) :
    Text.Over A before ∧ Text.Over A rest := by
  rw [Text.breakAt?_eq_some h, Text.over_append, Text.over_append] at ht
  exact ⟨ht.1.1, ht.2⟩

theorem over_of_declaration? {inside : Text} (ht : Text.Over A t)
    (h : declaration? t = some (inside, rest)) : Text.Over A inside ∧ Text.Over A rest := by
  have heq := declarationFrom?_eq_some h
  rw [List.reverse_nil, List.nil_append] at heq
  rw [heq, Text.over_append, Text.over_cons] at ht
  exact ⟨ht.1, ht.2.2⟩

namespace Item

theorem over_of_ofDeclaration {item : Item} (ht : Text.Over A t)
    (h : ofDeclaration t = .ok item) : item.Over A := by
  unfold ofDeclaration at h
  dsimp only at h
  split at h <;> cases h
  exact (over_of_nameOrEmpty ht).2

theorem over_of_ofInstruction {item : Item} (ht : Text.Over A t)
    (h : ofInstruction t = .ok item) : item.Over A := by
  unfold ofInstruction at h
  split at h
  · next hname =>
    obtain ⟨htarget, hdata⟩ := ht.name? hname
    cases h
    split
    · trivial
    · exact ⟨htarget, hdata.skipBlanks⟩
  · cases h

theorem over_of_readSectionStart {item : Item} (ht : Text.Over A t)
    (h : readSectionStart t = .ok (item, rest)) : item.Over A ∧ Text.Over A rest := by
  unfold readSectionStart at h
  split at h
  · split at h
    · next hreference =>
      cases h
      exact ⟨trivial, (over_of_reference? (Text.over_cons.1 ht).2 hreference).2⟩
    · cases h
  · cases h
    exact ⟨trivial, (over_of_nameOrEmpty ht).2⟩

theorem over_of_read {c : Char} {item : Item} (ht : Text.Over A t)
    (h : read c t = .ok (item, rest)) : item.Over A ∧ Text.Over A rest := by
  unfold read at h
  split at h
  · split at h
    · next hbreak =>
      cases h
      exact over_of_breakAt?
        (Text.over_cons.1 (Text.over_cons.1 (Text.over_cons.1 ht).2).2).2 hbreak
    · cases h
  · split at h
    · next hbreak =>
      obtain ⟨hinside, hrest⟩ := over_of_breakAt? (Text.over_cons.1 ht).2 hbreak
      split at h
      · next hitem =>
        cases h
        exact ⟨over_of_ofInstruction hinside hitem, hrest⟩
      · cases h
    · cases h
  · exact over_of_readSectionStart (Text.over_cons.1 (Text.over_cons.1 ht).2).2.skipBlanks h
  · split at h
    · next hdeclaration =>
      obtain ⟨hinside, hrest⟩ := over_of_declaration? (Text.over_cons.1 ht).2 hdeclaration
      split at h
      · next hitem =>
        cases h
        exact ⟨over_of_ofDeclaration hinside hitem, hrest⟩
      · cases h
    · cases h
  · split at h
    · next hreference =>
      cases h
      exact ⟨trivial, (over_of_reference? ht hreference).2⟩
    · cases h
  · cases h

end Item

/-! ### Sections -/

theorem over_of_sectionEnd? {opened : Nat} (ht : Text.Over A t)
    (h : sectionEnd? opened t = some rest) : Text.Over A rest := by
  unfold sectionEnd? at h
  split at h
  · exact ht.dropPrefix? h
  · cases h

theorem over_of_openSection {item start keyword left : Text} {kind : SectionKind}
    (hrest : Text.Over A rest) (h : openSection item start keyword rest = .ok (kind, left)) :
    Text.Over A left := by
  unfold openSection at h
  split at h
  · next body hbody =>
    have hover := hrest.skipBlanks
    rw [hbody] at hover
    split at h
    · cases h
      exact (Text.over_cons.1 hover).2
    · split at h
      · next hskip =>
        cases h
        exact (Text.over_cons.1 hover).2.of_suffix (skipIgnored_suffix hskip)
      · cases h
    · cases h
  · cases h

/-! ### Bodies -/

def Piece.Over (A : Char → Prop) : Piece → Prop
  | char c => A c
  | reference name _ => Text.Over A name

theorem over_of_mem_pieces (inLiterals : Bool) (ht : Text.Over A t) :
    ∀ p ∈ pieces inLiterals t, p.Over A := by
  have hfrom (quote : Option Char) (done : List Piece) (hdone : ∀ p ∈ done, p.Over A) :
      ∀ p ∈ piecesFrom inLiterals quote done t, p.Over A := by
    fun_induction piecesFrom inLiterals quote done t with
    | case1 => exact fun p hp => hdone p (List.mem_reverse.1 hp)
    | case2 quote done c t _ name rest hreference ih =>
        obtain ⟨hname, hrest⟩ := over_of_reference? (Text.over_cons.1 ht).2 hreference
        exact ih hrest (List.forall_mem_cons.2 ⟨hname, hdone⟩)
    | case3 quote done c t _ _ ih =>
        exact ih (Text.over_cons.1 ht).2
          (List.forall_mem_cons.2 ⟨(Text.over_cons.1 ht).1, hdone⟩)
    | case4 quote done c t _ ih =>
        exact ih (Text.over_cons.1 ht).2
          (List.forall_mem_cons.2 ⟨(Text.over_cons.1 ht).1, hdone⟩)
  exact hfrom none [] (by simp)

theorem readScope_suffix {scope : Scope} (h : readScope t = .ok (scope, rest)) :
    rest <:+ t := by
  unfold readScope at h
  split at h
  · next t =>
    split at h <;> cases h
    exact (Text.skipBlanks_suffix t).trans (List.suffix_cons '%' t)
  · cases h
    exact List.suffix_refl _

theorem DeclarationKind.over_event (kind : DeclarationKind) (scope : Scope)
    {name definition : Text} (hname : Text.Over A name)
    (hdefinition : Text.Over A definition) : (kind.event scope name definition).Over A := by
  have htexts : ∀ u ∈ [name, definition], Text.Over A u := by simpa using ⟨hname, hdefinition⟩
  cases kind <;> exact htexts

/-- The event that a body tells. -/
theorem DeclarationKind.over_of_read {kind : DeclarationKind} {e : Event} (ht : Text.Over A t)
    (h : kind.read t = .ok e) : e.Over A := by
  have hnamed (scope : Scope) {u name rest : Text} (hu : Text.Over A u)
      (hname : Text.name? u = some (name, rest)) :
      (kind.event scope name (Text.trim rest)).Over A := by
    obtain ⟨hname, hdefinition⟩ := hu.name? hname
    exact over_event kind scope hname hdefinition.trim
  unfold read at h
  dsimp only at h
  split at h
  · obtain ⟨⟨scope, rest⟩, hscope, h⟩ := Content.bind_eq_ok_iff.1 h
    split at h
    · next hname =>
      cases h
      exact hnamed scope (ht.skipBlanks.of_suffix (readScope_suffix hscope)) hname
    · cases h
  · obtain ⟨p, hp, h⟩ := Content.bind_eq_ok_iff.1 h
    cases hp
    split at h
    · next hname =>
      cases h
      exact hnamed .general ht.skipBlanks hname
    · cases h

end Doctype.Markup

/-! ### Documents -/

namespace Doctype.Source

variable {t rest : Text}

theorem body_suffix (s : Source) : s.body <:+ s.text := by
  unfold body
  cases s.kind with
  | dtd => exact Text.dropDeclaration_suffix s.text
  | document => exact Text.dropByteOrderMark_suffix s.text

theorem skipMisc_suffix (h : skipMisc t = .ok rest) : rest <:+ t := by
  have hbehind (front : Text) {text t before rest' : Text} {mark : Text}
      (hblanks : Text.skipBlanks text = front ++ t)
        (hbreak : Text.breakAt? mark t = some (before, rest')) : rest' <:+ text := by
    have htext := hblanks ▸ Text.skipBlanks_suffix text
    exact (Text.breakAt?_suffix hbreak).trans ((List.suffix_append front t).trans htext)
  fun_induction skipMisc t with
  | case1 text t hblanks before rest' hbreak ih =>
      exact (ih h).trans (hbehind "<!--" hblanks hbreak)
  | case2 => cases h
  | case3 text t hblanks before rest' hbreak ih =>
      exact (ih h).trans (hbehind "<?" hblanks hbreak)
  | case4 => cases h
  | case5 text =>
      cases h
      exact Text.skipBlanks_suffix text

theorem readExternalId_suffix {id : Option ExternalId}
    (h : readExternalId t = .ok (id, rest)) : rest <:+ t := by
  unfold readExternalId at h
  dsimp only at h
  split at h
  · split at h
    · next hread =>
      cases h
      exact (Text.skipBlanks_suffix _).trans
        ((ExternalId.read_bounded _ _ _ _ hread).trans (Text.skipBlanks_suffix t))
    · cases h
  · cases h
    exact Text.skipBlanks_suffix t

theorem readDoctype_suffix {id : Option ExternalId} (h : readDoctype t = .ok (id, rest)) :
    rest <:+ t := by
  unfold readDoctype at h
  obtain ⟨start, hmisc, h⟩ := Content.bind_eq_ok_iff.1 h
  split at h
  · cases h
  · next u hkeyword =>
    have hu : u <:+ t :=
      .trans ⟨_, (Text.dropPrefix?_eq_some hkeyword).symm⟩ (skipMisc_suffix hmisc)
    split at h
    · split at h <;> cases h
    · next name rest' hname =>
      have hrest' : rest' <:+ t :=
        .trans ⟨name, (Text.name?_eq_some hname).1.symm⟩ ((Text.skipBlanks_suffix u).trans hu)
      split at h
      · cases h
      · exact (readExternalId_suffix h).trans hrest'

end Doctype.Source
