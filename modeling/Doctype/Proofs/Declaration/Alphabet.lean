import Doctype.Attribute.Definition
import Doctype.Entity.Definition
import Doctype.Event
import Doctype.Proofs.Reference.Characters
import Doctype.Proofs.Text.Alphabet

/-!
The bodies of declarations over an alphabet. What lexers read of a body are parts of it, and
single spaces between these (`Lexer.Yields`). Other characters come into a declaration by the
character references in its literals alone, and `Event.Denotes` says which characters these
denote.
-/

namespace Doctype

variable {A : Char → Prop} {t : Text}

namespace Lexer

variable {α : Type} {lexer : Lexer α} {P : α → Prop}

/-- `Yields A lexer P`: what the lexer reads of texts over the alphabet satisfies `P`. -/
def Yields (A : Char → Prop) (lexer : Lexer α) (P : α → Prop) : Prop :=
  ∀ t a r, Text.Over A t → lexer t = .ok (a, r) → P a

theorem Yields.whole (h : Yields A lexer P) {a : α} (ht : Text.Over A t)
    (hok : whole lexer t = .ok a) : P a := by
  unfold Lexer.whole at hok
  split at hok
  · cases hok
  · next b r hrun =>
    split at hok
    · cases hok
      exact h _ _ _ ht.skipBlanks hrun
    · cases hok

theorem yields_quoted : Yields A quoted (Text.Over A) := by
  intro t v r ht h
  unfold quoted at h
  split at h
  · cases h
  · next q t =>
    split at h
    · split at h
      · cases h
      · cases h
        exact (Text.over_cons.1 ht).2.of_subset (List.takeWhile_subset _)
    · cases h

end Lexer

open Lexer (Yields yields_quoted)

/-! ### External identifiers -/

namespace ExternalId

def Over (A : Char → Prop) (id : ExternalId) : Prop :=
  (∀ u ∈ id.publicId, Text.Over A u) ∧ ∀ u ∈ id.systemId, Text.Over A u

theorem over_of_forall (h : ∀ c, A c) (id : ExternalId) : id.Over A :=
  ⟨fun _ _ c _ => h c, fun _ _ c _ => h c⟩

theorem over_normalizePublic (hA : Covers A) (ht : Text.Over A t) :
    Text.Over A (normalizePublic t) :=
  .join (hA.text (by decide)) fun _ hw => ht.of_isRun (Text.mem_words_iff.1 hw)

theorem yields_readSystem : Yields A readSystem (Over A) := by
  intro t id r ht h
  obtain ⟨⟨_, t₁⟩, hblanks, h⟩ := Lexer.bind_eq_ok h
  obtain ⟨⟨v, t₂⟩, hquoted, h⟩ := Lexer.bind_eq_ok h
  cases h
  have hv :=
    yields_quoted _ _ _ (ht.of_suffix (Lexer.requireBlanks_bounded _ _ _ _ hblanks)) hquoted
  exact ⟨by simp, by simpa using hv⟩

theorem yields_readPublic (hA : Covers A) (publicAlone : Bool) :
    Yields A (readPublic publicAlone) (Over A) := by
  intro t id r ht h
  obtain ⟨⟨_, t₁⟩, hblanks, h⟩ := Lexer.bind_eq_ok h
  obtain ⟨⟨v, t₂⟩, hquoted, h⟩ := Lexer.bind_eq_ok h
  have ht₁ := ht.of_suffix (Lexer.requireBlanks_bounded _ _ _ _ hblanks)
  have ht₂ := ht₁.of_suffix (Lexer.quoted_bounded _ _ _ hquoted)
  have hname := over_normalizePublic hA (yields_quoted _ _ _ ht₁ hquoted)
  dsimp only at h
  split at h
  · obtain ⟨⟨w, t₃⟩, hsystem, h⟩ := Lexer.bind_eq_ok h
    cases h
    exact ⟨by simpa using hname, by simpa using yields_quoted _ _ _ ht₂.skipBlanks hsystem⟩
  · split at h
    · cases h
      exact ⟨by simpa using hname, by simp⟩
    · cases h

theorem yields_read (hA : Covers A) (publicAlone : Bool) :
    Yields A (read publicAlone) (Over A) := by
  intro t id r ht h
  unfold read at h
  split at h
  · next hkeyword =>
      exact yields_readSystem _ _ _ (ht.of_suffix (Lexer.keyword?_suffix hkeyword)) h
  · split at h
    · next hkeyword =>
        exact yields_readPublic hA _ _ _ _ (ht.of_suffix (Lexer.keyword?_suffix hkeyword)) h
    · cases h

theorem readSystem_bounded : Lexer.Bounded readSystem := by
  intro t id r h
  obtain ⟨⟨_, t₁⟩, hblanks, h⟩ := Lexer.bind_eq_ok h
  obtain ⟨⟨v, t₂⟩, hquoted, h⟩ := Lexer.bind_eq_ok h
  cases h
  exact (Lexer.quoted_bounded _ _ _ hquoted).trans
    (Lexer.requireBlanks_bounded _ _ _ _ hblanks)

theorem readPublic_bounded (publicAlone : Bool) : Lexer.Bounded (readPublic publicAlone) := by
  intro t id r h
  obtain ⟨⟨_, t₁⟩, hblanks, h⟩ := Lexer.bind_eq_ok h
  obtain ⟨⟨v, t₂⟩, hquoted, h⟩ := Lexer.bind_eq_ok h
  have ht₂ :=
    (Lexer.quoted_bounded _ _ _ hquoted).trans (Lexer.requireBlanks_bounded _ _ _ _ hblanks)
  dsimp only at h
  split at h
  · obtain ⟨⟨w, t₃⟩, hsystem, h⟩ := Lexer.bind_eq_ok h
    cases h
    exact (Lexer.quoted_bounded _ _ _ hsystem).trans ((Text.skipBlanks_suffix t₂).trans ht₂)
  · split at h
    · cases h
      exact ht₂
    · cases h

theorem read_bounded (publicAlone : Bool) : Lexer.Bounded (read publicAlone) := by
  intro t id r h
  unfold read at h
  split at h
  · next hkeyword => exact (readSystem_bounded _ _ _ h).trans (Lexer.keyword?_suffix hkeyword)
  · split at h
    · next hkeyword =>
        exact (readPublic_bounded _ _ _ _ h).trans (Lexer.keyword?_suffix hkeyword)
    · cases h

theorem over_of_ofNotation (hA : Covers A) {id : ExternalId} (ht : Text.Over A t)
    (h : ofNotation t = .ok id) : id.Over A :=
  (yields_read hA true).whole ht h

end ExternalId

/-! ### Entities -/

namespace Entity.Definition

def Over (A : Char → Prop) : Definition → Prop
  | literal value => Text.Over A value
  | external id notationName => id.Over A ∧ ∀ u ∈ notationName, Text.Over A u

theorem over_of_forall (h : ∀ c, A c) (d : Definition) : d.Over A := by
  cases d with
  | literal value => exact fun c _ => h c
  | external id n => exact ⟨id.over_of_forall h, fun _ _ c _ => h c⟩

theorem yields_readNotation : Yields A readNotation fun n => ∀ u ∈ n, Text.Over A u := by
  intro t n r ht h
  unfold readNotation at h
  split at h
  · next hkeyword =>
    have hrest := ht.skipBlanks.of_suffix (Lexer.keyword?_suffix hkeyword)
    obtain ⟨⟨_, t₁⟩, hblanks, h⟩ := Lexer.bind_eq_ok h
    have ht₁ := hrest.of_suffix (Lexer.requireBlanks_bounded _ _ _ _ hblanks)
    dsimp only at h
    split at h
    · next hname =>
      cases h
      simpa using (ht₁.name? hname).1
    · cases h
  · cases h
    simp

theorem over_of_parse (hA : Covers A) {d : Definition} (ht : Text.Over A t)
    (h : parse t = .ok d) : d.Over A := by
  have hread : Yields A read (Over A) := by
    intro t d r ht h
    unfold read at h
    split at h
    · obtain ⟨⟨v, t₁⟩, hquoted, h⟩ := Lexer.bind_eq_ok h
      cases h
      exact yields_quoted _ _ _ ht hquoted
    · obtain ⟨⟨id, t₁⟩, hid, h⟩ := Lexer.bind_eq_ok h
      obtain ⟨⟨n, t₂⟩, hnotation, h⟩ := Lexer.bind_eq_ok h
      cases h
      have ht₁ := ht.of_suffix (ExternalId.read_bounded _ _ _ _ hid)
      exact ⟨ExternalId.yields_read hA _ _ _ _ ht hid, yields_readNotation _ _ _ ht₁ hnotation⟩
  exact hread.whole ht h

end Entity.Definition

/-! ### Attribute lists -/

namespace Attribute

/-- The written form of a type. -/
theorem Kind.over_print (hA : Covers A) {k : Kind} (h : ∀ v ∈ k.values, Text.Over A v) :
    Text.Over A k.print := by
  have hjoin {vs : List Text} (hvs : ∀ v ∈ vs, Text.Over A v) :
      Text.Over A (Text.join ['|'] vs) :=
    .join (hA.text (by decide)) hvs
  cases k with
  | enumeration vs =>
      exact .append (.append (hA.text (by decide)) (hjoin h)) (hA.text (by decide))
  | notations ns =>
      exact .append (.append (hA.text (by decide)) (hjoin h)) (hA.text (by decide))
  | _ => exact hA.text (by decide)

theorem Kind.values_of_ofKeyword? {keyword : Text} {k : Kind}
    (h : ofKeyword? keyword = some k) : k.values = [] := by
  unfold ofKeyword? at h
  split_ifs at h <;> cases h <;> rfl

structure Definition.Over (A : Char → Prop) (d : Definition) : Prop where
  name : Text.Over A d.name
  values : ∀ v ∈ d.kind.values, Text.Over A v
  value : ∀ v ∈ d.default.value?, Text.Over A v

theorem over_of_member? {namesOnly : Bool} {v rest : Text} (ht : Text.Over A t)
    (h : member? namesOnly t = some (v, rest)) : Text.Over A v ∧ Text.Over A rest := by
  rw [(member?_eq_some h).1] at ht
  exact Text.over_append.1 ht

theorem over_of_readMembers {namesOnly : Bool} {done vs : List Text} {rest : Text}
    (hdone : ∀ v ∈ done, Text.Over A v) (ht : Text.Over A t)
    (h : readMembers namesOnly done t = .ok (vs, rest)) : ∀ v ∈ vs, Text.Over A v := by
  fun_induction readMembers namesOnly done t with
  | case1 => cases h
  | case2 done t value after hmember rest' hafter ih =>
      obtain ⟨hvalue, hrest⟩ := over_of_member? ht.skipBlanks hmember
      have htail := hrest.skipBlanks
      rw [hafter] at htail
      exact ih (List.forall_mem_cons.2 ⟨hvalue, hdone⟩) (Text.over_cons.1 htail).2 h
  | case3 done t value after hmember rest' hafter =>
      cases h
      intro v hv
      exact List.forall_mem_cons.2 ⟨(over_of_member? ht.skipBlanks hmember).1, hdone⟩ v
        (List.mem_reverse.1 hv)
  | case4 => cases h

theorem yields_readGroup (namesOnly : Bool) :
    Yields A (readGroup namesOnly) fun vs => ∀ v ∈ vs, Text.Over A v := by
  intro t vs r ht h
  obtain ⟨⟨_, t₁⟩, hchar, h⟩ := Lexer.bind_eq_ok h
  exact over_of_readMembers (by simp) (ht.of_suffix (Lexer.char_bounded _ _ _ _ hchar)) h

theorem yields_readKind : Yields A readKind fun k => ∀ v ∈ k.values, Text.Over A v := by
  intro t k r ht h
  unfold readKind at h
  split at h
  · obtain ⟨⟨vs, t₁⟩, hgroup, h⟩ := Lexer.bind_eq_ok h
    cases h
    exact yields_readGroup _ _ _ _ ht hgroup
  · split at h
    · cases h
    · rename_i keyword t₁ hname
      have ht₁ := (ht.name? hname).2
      split at h
      · obtain ⟨⟨_, t₂⟩, hblanks, h⟩ := Lexer.bind_eq_ok h
        obtain ⟨⟨names, t₃⟩, hgroup, h⟩ := Lexer.bind_eq_ok h
        cases h
        exact yields_readGroup _ _ _ _
          (ht₁.of_suffix (Lexer.blanks_bounded _ _ _ _ hblanks)) hgroup
      · split at h
        · next hkind =>
          cases h
          simp [Kind.values_of_ofKeyword? hkind]
        · cases h

theorem yields_readDefault : Yields A readDefault fun d => ∀ v ∈ d.value?, Text.Over A v := by
  intro t d r ht h
  unfold readDefault at h
  split at h
  · cases h
    simp [Default.value?]
  · split at h
    · cases h
      simp [Default.value?]
    · split at h
      · next hkeyword =>
        have hrest := ht.of_suffix (Lexer.keyword?_suffix hkeyword)
        obtain ⟨⟨_, t₁⟩, hblanks, h⟩ := Lexer.bind_eq_ok h
        obtain ⟨⟨v, t₂⟩, hquoted, h⟩ := Lexer.bind_eq_ok h
        cases h
        have hv :=
          yields_quoted _ _ _ (hrest.of_suffix (Lexer.blanks_bounded _ _ _ _ hblanks)) hquoted
        simpa [Default.value?] using hv
      · split at h
        · obtain ⟨⟨v, t₁⟩, hquoted, h⟩ := Lexer.bind_eq_ok h
          have hv := yields_quoted _ _ _ ht hquoted
          dsimp only at h
          split at h
          · cases h
          · cases h
            simpa [Default.value?] using hv
        · cases h

theorem yields_readRest {name : Text} (hname : Text.Over A name) :
    Yields A (readRest name) (Definition.Over A) := by
  intro t d r ht h
  obtain ⟨⟨_, t₁⟩, hblanks, h⟩ := Lexer.bind_eq_ok h
  obtain ⟨⟨kind, t₂⟩, hkind, h⟩ := Lexer.bind_eq_ok h
  obtain ⟨⟨_, t₃⟩, hblanks', h⟩ := Lexer.bind_eq_ok h
  obtain ⟨⟨default, t₄⟩, hdefault, h⟩ := Lexer.bind_eq_ok h
  obtain ⟨⟨_, t₅⟩, -, h⟩ := Lexer.bind_eq_ok h
  cases h
  have ht₁ := ht.of_suffix (Lexer.blanks_bounded _ _ _ _ hblanks)
  have ht₃ := (ht₁.of_suffix (readKind_bounded _ _ _ hkind)).of_suffix
    (Lexer.blanks_bounded _ _ _ _ hblanks')
  exact ⟨hname, yields_readKind _ _ _ ht₁ hkind, yields_readDefault _ _ _ ht₃ hdefault⟩

theorem over_of_readDefinitions {done ds : List Definition} (hdone : ∀ d ∈ done, d.Over A)
    (ht : Text.Over A t) (h : readDefinitions done t = .ok ds) : ∀ d ∈ ds, d.Over A := by
  fun_induction readDefinitions done t with
  | case1 =>
      cases h
      exact fun d hd => hdone d (List.mem_reverse.1 hd)
  | case2 => cases h
  | case3 => cases h
  | case4 done t c front hblanks name after hname d rest hrest ih =>
      have hfront := ht.skipBlanks
      rw [hblanks] at hfront
      obtain ⟨hn, hafter⟩ := hfront.name? hname
      have hd := yields_readRest hn _ _ _ hafter hrest
      exact ih (List.forall_mem_cons.2 ⟨hd, hdone⟩)
        (hafter.of_suffix (readRest_bounded _ _ _ _ hrest)) h

theorem Definition.over_of_parseAll {ds : List Definition} (ht : Text.Over A t)
    (h : parseAll t = .ok ds) : ∀ d ∈ ds, d.Over A := by
  unfold parseAll at h
  cases hread : readDefinitions [] t with
  | error f =>
      rw [hread] at h
      cases h
  | ok ds' =>
      rw [hread] at h
      cases h
      exact over_of_readDefinitions (by simp) ht hread

end Attribute

/-! ### Events -/

namespace Event

def texts : Event → List Text
  | element name raw => [name, raw]
  | attributeList owner body => [owner, body]
  | entity _ name raw => [name, raw]
  | notationType name raw => [name, raw]
  | comment text => [text]
  | instruction target data => [target, data]

def Over (A : Char → Prop) (e : Event) : Prop :=
  ∀ t ∈ e.texts, Text.Over A t

/-- `Denotes e c`: a character reference in the event denotes the character. It stands in the
literal of an entity or in a default value, or in the replacement text of a general entity,
which default values may refer to. -/
inductive Denotes : Event → Char → Prop
  | literal {scope : Scope} {name raw value : Text} {c : Char} :
      Entity.Definition.parse raw = .ok (.literal value) → Reference.Denotes value c →
        Denotes (entity scope name raw) c
  | replacement {name raw value : Text} {c : Char} :
      Entity.Definition.parse raw = .ok (.literal value) →
        Reference.Denotes (Reference.expandChars value) c →
        Denotes (entity .general name raw) c
  | default {owner body value : Text} {ds : List Attribute.Definition}
      {d : Attribute.Definition} {c : Char} :
      Attribute.Definition.parseAll body = .ok ds → d ∈ ds → d.default.value? = some value →
        Reference.Denotes value c → Denotes (attributeList owner body) c

def Clean (A : Char → Prop) (e : Event) : Prop :=
  ∀ c, e.Denotes c → A c

theorem Clean.over_expandChars {scope : Scope} {name raw value : Text}
    (h : (entity scope name raw).Clean A)
    (hparse : Entity.Definition.parse raw = .ok (.literal value))
    (hvalue : Text.Over A value) : Text.Over A (Reference.expandChars value) :=
  fun c hc => (Reference.mem_or_denotes_of_mem_expandChars hc).elim (hvalue c) fun hdenotes =>
    h c (.literal hparse hdenotes)

end Event
end Doctype
