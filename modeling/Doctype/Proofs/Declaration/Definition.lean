import Doctype.Entity.Definition
import Doctype.Proofs.Attribute.Acceptance
import Doctype.Proofs.Content.Acceptance

/-!
The right-hand sides of entity and notation declarations are read exactly as their grammars
write them. What is written is said apart from any way of reading it (`ExternalId.Written`,
`Entity.Definition.Written`). A lexer for a production reads what it writes, no more and no
less, and says of every other text where it fails (`Lexer.Reads`); so does the reader of a
whole text that is made of the lexer (`Lexer.Reads.whole`).
-/

namespace Doctype

open Attribute.Grammar (Gap Space Literal)
open Attribute (literal_append_iff startsNameChar_space startsBlank_space)
open Text (startsBlank startsNameChar skipBlanks skipBlanks_append skipBlanks_eq_iff)

variable {t u r s v context : Text}

/-! ### Productions -/

/-- `'SYSTEM' S Literal | 'PUBLIC' S Literal S Literal`, and where `publicAlone` also `'PUBLIC'
S Literal`. A system identifier is its literal as it is written, a public one the words of its
literal with single spaces between them. -/
inductive ExternalId.Written : Bool → Text → ExternalId → Prop
  | system {publicAlone : Bool} {s t v : Text} : Space s → Literal t v →
      Written publicAlone ("SYSTEM".toList ++ s ++ t) ⟨Option.none, some v⟩
  | both {publicAlone : Bool} {s t v s' t' w : Text} :
      Space s → Literal t v → Space s' → Literal t' w →
      Written publicAlone ("PUBLIC".toList ++ s ++ t ++ s' ++ t')
        ⟨some (Text.join [' '] (Text.words v)), some w⟩
  | alone {s t v : Text} : Space s → Literal t v →
      Written true ("PUBLIC".toList ++ s ++ t)
        ⟨some (Text.join [' '] (Text.words v)), Option.none⟩

/-- `Literal | ExternalID (S 'NDATA' S Name)?` -/
inductive Entity.Definition.Written : Text → Entity.Definition → Prop
  | literal {t v : Text} : Literal t v → Written t (.literal v)
  | parsed {t : Text} {id : ExternalId} :
      ExternalId.Written false t id → Written t (.external id none)
  | unparsed {t s s' n : Text} {id : ExternalId} :
      ExternalId.Written false t id → Space s → Space s' →
      Text.isName n = true →
      Written (t ++ s ++ "NDATA".toList ++ s' ++ n) (.external id (some n))

namespace Lexer

variable {α : Type} {lexer : Lexer α} {P : Text → α → Prop} {a : α}

/-- `S? u S?`, where the production writes `u`. -/
def Framed (P : Text → α → Prop) (t : Text) (a : α) : Prop :=
  ∃ s u s', t = s ++ u ++ s' ∧ Gap s ∧ P u a ∧ Gap s'

/-- Where the lexer fails, an end of the text is left. -/
def Places (lexer : Lexer α) : Prop :=
  ∀ t f, lexer t = .error f → f.rest <:+ t

/-- The lexer reads what the production writes: what it reads is written in front of what it
leaves, and what is written in front of blanks is read. -/
structure Reads (lexer : Lexer α) (P : Text → α → Prop) : Prop where
  sound : ∀ t a r, lexer t = .ok (a, r) → ∃ u, t = u ++ r ∧ P u a
  complete : ∀ u a s, P u a → Gap s → startsBlank (u ++ s) = false ∧
    lexer (u ++ s) = .ok (a, s)
  places : Places lexer

theorem Reads.bounded (h : Reads lexer P) : Bounded lexer := by
  intro t a r hread
  obtain ⟨u, rfl, -⟩ := h.sound t a r hread
  exact List.suffix_append u r

theorem exists_place {f : Failure} (h : f.rest <:+ t) :
    ∃ front rest, t = front ++ rest ∧ (f.toError t).offset = Text.size front := by
  obtain ⟨front, rfl⟩ := h
  exact ⟨front, f.rest, rfl, by simp [Failure.toError, Text.offset]⟩

theorem Reads.whole_eq_ok_iff (h : Reads lexer P) : whole lexer t = .ok a ↔ Framed P t a := by
  constructor
  · intro hok
    unfold whole at hok
    split at hok
    · cases hok
    · next b rest hread =>
      split at hok
      · next hend =>
        cases hok
        obtain ⟨u, hskip, hu⟩ := h.sound _ _ _ hread
        obtain ⟨-, s, rfl, hs⟩ := skipBlanks_eq_iff.1 hskip
        obtain ⟨-, s', rfl, hs'⟩ := skipBlanks_eq_iff.1 hend
        exact ⟨s, u, s', by simp, hs, hu, by simpa [Gap] using hs'⟩
      · cases hok
  · rintro ⟨s, u, s', rfl, hs, hu, hs'⟩
    obtain ⟨hfront, hread⟩ := h.complete u a s' hu hs'
    have hskip : skipBlanks (s ++ u ++ s') = u ++ s' := by
      rw [List.append_assoc]
      exact skipBlanks_append hs hfront
    have hend : skipBlanks s' = [] := by simpa using skipBlanks_append (t := []) hs' rfl
    simp only [whole, hskip, hread, hend]

theorem Reads.exists_place_of_whole {e : Error} (h : Reads lexer P)
    (herror : whole lexer t = .error e) :
    ∃ front rest, t = front ++ rest ∧ e.offset = Text.size front := by
  unfold whole at herror
  split at herror
  · next f hfault =>
    cases herror
    exact exists_place ((h.places _ f hfault).trans (Text.skipBlanks_suffix t))
  · next b rest hread =>
    split at herror
    · cases herror
    · cases herror
      have hrest : rest <:+ t := (h.bounded _ _ _ hread).trans (Text.skipBlanks_suffix t)
      exact exists_place ((Text.skipBlanks_suffix rest).trans hrest)

/-- The reader of a whole text accepts exactly what the production writes between blanks, and
fails between two characters of every other text. -/
theorem Reads.whole (h : Reads lexer P) (t : Text) :
    (∀ a, Lexer.whole lexer t = .ok a ↔ Framed P t a) ∧
      ((∃ e, Lexer.whole lexer t = .error e) ↔ ¬ ∃ a, Framed P t a) ∧
      ∀ e, Lexer.whole lexer t = .error e →
        e.offset ≤ Text.size t ∧ ∃ front rest, t = front ++ rest ∧
          e.offset = Text.size front := by
  refine ⟨fun a => h.whole_eq_ok_iff, ?_, fun e herror => ?_⟩
  · simp only [← h.whole_eq_ok_iff]
    cases Lexer.whole lexer t <;> simp
  · obtain ⟨front, rest, rfl, hoffset⟩ := h.exists_place_of_whole herror
    refine ⟨?_, front, rest, rfl, hoffset⟩
    rw [hoffset, Text.size_append]
    omega

/-! ### Blanks and literals -/

/-- Required blanks may be missing at the end of the text only. -/
theorem requireBlanks_eq_ok_iff {x : Unit} :
    requireBlanks context t = .ok (x, r) ↔ t = [] ∧ r = [] ∨ startsBlank r = false ∧
      ∃ s, t = s ++ r ∧ Space s := by
  cases t with
  | nil =>
      constructor
      · intro h
        cases h
        exact .inl ⟨rfl, rfl⟩
      · rintro (⟨-, rfl⟩ | ⟨-, s, heq, hne, -⟩)
        · rfl
        · exact absurd (List.append_eq_nil_iff.1 heq.symm).1 hne
  | cons c t =>
      have hread : requireBlanks context (c :: t) =
          blanks (.blankRequired context) (c :: t) := by
        cases hc : isBlank c <;> simp [requireBlanks, blanks, startsBlank, skipBlanks, hc]
      rw [hread, blanks_eq_ok_iff]
      simp [Space, Gap]

theorem requireBlanks_append (hs : Space s) (hr : startsBlank r = false) :
    requireBlanks context (s ++ r) = .ok ((), r) :=
  requireBlanks_eq_ok_iff.2 (.inr ⟨hr, s, rfl, hs⟩)

theorem startsBlank_literal (h : Literal t v) (r : Text) : startsBlank (t ++ r) = false := by
  cases h <;> rfl

theorem startsQuoted_literal (h : Literal t v) (r : Text) : startsQuoted (t ++ r) = true := by
  cases h <;> rfl

theorem exists_of_spaced_literal {x : Unit} (hblanks : requireBlanks context t = .ok (x, u))
    (hquoted : quoted u = .ok (v, r)) : ∃ s w, t = s ++ (w ++ r) ∧ Space s ∧ Literal w v := by
  obtain ⟨w, rfl, hw⟩ := literal_append_iff.2 hquoted
  rcases requireBlanks_eq_ok_iff.1 hblanks with ⟨-, hnil⟩ | ⟨-, s, rfl, hs⟩
  · cases hw <;> cases hnil
  · exact ⟨s, w, rfl, hs, hw⟩

/-- Where a lexer and what is done behind it fail, the one or the other does. -/
theorem Places.bind {β : Type} {k : α × Text → Except Failure (β × Text)} {f : Failure}
    (hlexer : Places lexer) (hbounded : Bounded lexer) (h : (lexer t >>= k) = .error f)
    (hk : ∀ a r, lexer t = .ok (a, r) → k (a, r) = .error f → f.rest <:+ r) :
    f.rest <:+ t := by
  rcases Content.bind_eq_error_iff.1 h with h | ⟨⟨a, r⟩, hread, h⟩
  · exact hlexer t f h
  · exact (hk a r hread h).trans (hbounded t a r hread)

def Stays (lexer : Lexer α) : Prop :=
  ∀ t f, lexer t = .error f → f.rest = t

theorem Stays.places (h : Stays lexer) : Places lexer :=
  fun t f hfail => ⟨[], h t f hfail⟩

theorem requireBlanks_stays (context : Text) : Stays (requireBlanks context) := by
  intro t f h
  unfold requireBlanks at h
  split at h
  · cases h
  · split at h <;> cases h
    rfl

theorem quoted_stays : Stays quoted := by
  intro t f h
  unfold quoted at h
  split at h
  · cases h
    rfl
  · split at h
    · split at h <;> cases h
      rfl
    · cases h
      rfl

end Lexer

open Lexer (Places requireBlanks quoted requireBlanks_append requireBlanks_stays quoted_stays)

/-! ### External identifiers -/

namespace ExternalId

variable {publicAlone : Bool} {id : ExternalId}

theorem exists_of_readSystem (h : readSystem t = .ok (id, r)) :
    ∃ u, t = u ++ r ∧ Written publicAlone ("SYSTEM".toList ++ u) id := by
  obtain ⟨⟨_, t₁⟩, hblanks, h⟩ := Lexer.bind_eq_ok h
  obtain ⟨⟨v, t₂⟩, hquoted, h⟩ := Lexer.bind_eq_ok h
  cases h
  obtain ⟨s, w, rfl, hs, hw⟩ := Lexer.exists_of_spaced_literal hblanks hquoted
  exact ⟨s ++ w, by simp, by simpa using Written.system hs hw⟩

theorem readSystem_append (hs : Space s) (ht : Literal t v) (r : Text) :
    readSystem (s ++ (t ++ r)) = .ok (⟨Option.none, some v⟩, r) := by
  simp only [readSystem, requireBlanks_append hs (Lexer.startsBlank_literal ht r),
    literal_append_iff.1 ⟨t, rfl, ht⟩, bind, Except.bind, pure, Except.pure]

theorem exists_of_readPublic (h : readPublic publicAlone t = .ok (id, r)) :
    ∃ u, t = u ++ r ∧ Written publicAlone ("PUBLIC".toList ++ u) id := by
  obtain ⟨⟨_, t₁⟩, hblanks, hbehind⟩ := Lexer.bind_eq_ok h
  obtain ⟨⟨v, t₂⟩, hquoted, hnext⟩ := Lexer.bind_eq_ok hbehind
  obtain ⟨s, w, rfl, hs, hw⟩ := Lexer.exists_of_spaced_literal hblanks hquoted
  dsimp only at hnext
  split at hnext
  · next hstarts =>
    obtain ⟨⟨v', t₃⟩, hsystem, hend⟩ := Lexer.bind_eq_ok hnext
    cases hend
    obtain ⟨w', hskip, hw'⟩ := literal_append_iff.2 hsystem
    obtain ⟨-, s', rfl, hs'⟩ := skipBlanks_eq_iff.1 hskip
    -- the blanks that may stand there do stand there
    have hne : s' ≠ [] := by
      rintro rfl
      simp [Lexer.startsBlank_literal hw'] at hstarts
    exact ⟨s ++ w ++ s' ++ w', by simp,
      by simpa [normalizePublic] using Written.both hs hw ⟨hne, hs'⟩ hw'⟩
  · split at hnext
    · next halone =>
      cases hnext
      subst halone
      exact ⟨s ++ w, by simp, by simpa [normalizePublic] using Written.alone hs hw⟩
    · cases hnext

theorem readPublic_both {s' t' w : Text} (hs : Space s) (ht : Literal t v) (hs' : Space s')
    (ht' : Literal t' w) (r : Text) :
    readPublic publicAlone (s ++ (t ++ (s' ++ (t' ++ r)))) =
      .ok (⟨some (Text.join [' '] (Text.words v)), some w⟩, r) := by
  have hskip : skipBlanks (s' ++ (t' ++ r)) = t' ++ r :=
    skipBlanks_append hs'.2 (Lexer.startsBlank_literal ht' r)
  simp only [readPublic, requireBlanks_append hs (Lexer.startsBlank_literal ht _),
    literal_append_iff.1 ⟨t, rfl, ht⟩, hskip, startsBlank_space hs',
    Lexer.startsQuoted_literal ht',
    literal_append_iff.1 ⟨t', rfl, ht'⟩, bind, Except.bind, pure, Except.pure,
      Bool.and_self, if_true, normalizePublic]

theorem readPublic_alone (hs : Space s) (ht : Literal t v)
    (hr : Lexer.startsQuoted (skipBlanks r) = false) :
    readPublic true (s ++ (t ++ r)) =
      .ok (⟨some (Text.join [' '] (Text.words v)), Option.none⟩, r) := by
  simp only [readPublic, requireBlanks_append hs (Lexer.startsBlank_literal ht r),
    literal_append_iff.1 ⟨t, rfl, ht⟩, hr, bind, Except.bind, pure, Except.pure,
    Bool.and_false, normalizePublic]
  rfl

theorem exists_of_read (h : read publicAlone t = .ok (id, r)) :
    ∃ u, t = u ++ r ∧ Written publicAlone u id := by
  unfold read at h
  split at h
  · next rest hkeyword =>
    obtain ⟨rfl, -⟩ := Lexer.keyword?_eq_some_iff.1 hkeyword
    obtain ⟨u, rfl, hu⟩ := exists_of_readSystem h
    exact ⟨"SYSTEM".toList ++ u, by simp, hu⟩
  · split at h
    · next rest hkeyword =>
      obtain ⟨rfl, -⟩ := Lexer.keyword?_eq_some_iff.1 hkeyword
      obtain ⟨u, rfl, hu⟩ := exists_of_readPublic h
      exact ⟨"PUBLIC".toList ++ u, by simp, hu⟩
    · cases h

theorem read_system (hs : Space s) (r : Text) :
    read publicAlone ("SYSTEM".toList ++ (s ++ r)) = readSystem (s ++ r) := by
  rw [read, Lexer.keyword?_eq_some_iff.2 ⟨rfl, startsNameChar_space hs r⟩]

theorem read_public (hs : Space s) (r : Text) :
    read publicAlone ("PUBLIC".toList ++ (s ++ r)) = readPublic publicAlone (s ++ r) := by
  have hsystem : Lexer.keyword? "SYSTEM" ("PUBLIC".toList ++ (s ++ r)) = Option.none :=
    Lexer.keyword?_eq_none (by simp)
  rw [read, hsystem, Lexer.keyword?_eq_some_iff.2 ⟨rfl, startsNameChar_space hs r⟩]

theorem read_append (h : Written publicAlone u id)
    (hr : Lexer.startsQuoted (skipBlanks r) = false) :
    read publicAlone (u ++ r) = .ok (id, r) := by
  cases h with
  | system hs ht =>
      simp only [List.append_assoc]
      rw [read_system hs, readSystem_append hs ht]
  | both hs ht hs' ht' =>
      simp only [List.append_assoc]
      rw [read_public hs, readPublic_both hs ht hs' ht']
  | alone hs ht =>
      simp only [List.append_assoc]
      rw [read_public hs, readPublic_alone hs ht hr]

theorem Written.startsBlank (h : Written publicAlone u id) (r : Text) :
    startsBlank (u ++ r) = false := by
  cases h <;> rfl

theorem Written.startsQuoted (h : Written publicAlone u id) (r : Text) :
    Lexer.startsQuoted (u ++ r) = false := by
  cases h <;> rfl

theorem readSystem_places : Places readSystem := by
  intro t f h
  refine (requireBlanks_stays _).places.bind (Lexer.requireBlanks_bounded _) h
    fun _ t₁ _ h => ?_
  refine quoted_stays.places.bind Lexer.quoted_bounded h fun _ t₂ _ h => ?_
  cases h

theorem readPublic_places (publicAlone : Bool) : Places (readPublic publicAlone) := by
  intro t f h
  refine (requireBlanks_stays _).places.bind (Lexer.requireBlanks_bounded _) h
    fun _ t₁ _ h => ?_
  refine quoted_stays.places.bind Lexer.quoted_bounded h fun _ t₂ _ h => ?_
  dsimp only at h
  split at h
  · refine List.IsSuffix.trans ?_ (Text.skipBlanks_suffix t₂)
    refine quoted_stays.places.bind Lexer.quoted_bounded h fun _ t₃ _ h => ?_
    cases h
  · split at h
    · cases h
    · cases h
      exact List.suffix_rfl

theorem read_places (publicAlone : Bool) : Places (read publicAlone) := by
  intro t f h
  unfold read at h
  split at h
  · next rest hkeyword =>
      exact (readSystem_places _ f h).trans (Lexer.keyword?_suffix hkeyword)
  · split at h
    · next rest hkeyword =>
        exact (readPublic_places publicAlone _ f h).trans (Lexer.keyword?_suffix hkeyword)
    · cases h
      exact List.suffix_rfl

theorem startsQuoted_gap (hs : Gap s) : Lexer.startsQuoted (skipBlanks s) = false := by
  have hend : skipBlanks s = [] := by simpa using skipBlanks_append (t := []) hs rfl
  rw [hend]
  rfl

theorem reads_read (publicAlone : Bool) :
    Lexer.Reads (read publicAlone) (Written publicAlone) where
  sound _ _ _ h := exists_of_read h
  complete _ _ s hu hs := ⟨hu.startsBlank s, read_append hu (startsQuoted_gap hs)⟩
  places := read_places publicAlone

end ExternalId

/-! ### Entity definitions -/

namespace Entity.Definition

variable {d : Definition} {id : ExternalId}

/-- Behind an external identifier, a notation stands between blanks, or nothing was read. -/
theorem exists_of_readNotation {notationName : Option Text}
    (h : readNotation t = .ok (notationName, r)) :
    (notationName = none ∧ t = r) ∨ ∃ s s' n, notationName = some n ∧ Space s ∧ Space s' ∧
      Text.isName n = true ∧
      t = s ++ "NDATA".toList ++ s' ++ n ++ r := by
  unfold readNotation at h
  split at h
  · next t₁ hblank hkeyword =>
    obtain ⟨⟨_, t₂⟩, hblanks, h⟩ := Lexer.bind_eq_ok h
    dsimp only at h
    split at h
    · next n t₃ hname =>
      cases h
      obtain ⟨rfl, hn, -⟩ := Text.name?_eq_some_iff.1 hname
      obtain ⟨hskip, -⟩ := Lexer.keyword?_eq_some_iff.1 hkeyword
      obtain ⟨-, s, rfl, hs⟩ := skipBlanks_eq_iff.1 hskip
      have hne : s ≠ [] := by
        rintro rfl
        cases hblank
      rcases Lexer.requireBlanks_eq_ok_iff.1 hblanks with ⟨-, hnil⟩ | ⟨-, s', rfl, hs'⟩
      · exact absurd (List.append_eq_nil_iff.1 hnil).1 (Text.isNmtoken_of_isName hn).1
      · exact .inr ⟨s, s', n, rfl, ⟨hne, hs⟩, hs', hn, by simp⟩
    · cases h
  · cases h
    exact .inl ⟨rfl, rfl⟩

theorem readNotation_append {n s' : Text} (hs : Space s) (hs' : Space s')
    (hn : Text.isName n = true) (hr : startsNameChar r = false) :
    readNotation (s ++ ("NDATA".toList ++ (s' ++ (n ++ r)))) = .ok (some n, r) := by
  have hskip : skipBlanks (s ++ ("NDATA".toList ++ (s' ++ (n ++ r)))) =
      "NDATA".toList ++ (s' ++ (n ++ r)) :=
    skipBlanks_append hs.2 rfl
  have hkeyword : Lexer.keyword? "NDATA" ("NDATA".toList ++ (s' ++ (n ++ r))) =
      some (s' ++ (n ++ r)) :=
    Lexer.keyword?_eq_some_iff.2 ⟨rfl, startsNameChar_space hs' _⟩
  have hblanks {context : Text} : requireBlanks context (s' ++ (n ++ r)) = .ok ((), n ++ r) :=
    requireBlanks_append hs' ((Text.isNmtoken_of_isName hn).startsBlank r)
  simp only [readNotation, startsBlank_space hs, hskip, hkeyword, hblanks,
    Text.name?_append hn hr, bind, Except.bind, pure, Except.pure]

theorem readNotation_gap (hs : Gap s) : readNotation s = .ok (none, s) := by
  have hend : skipBlanks s = [] := by simpa using skipBlanks_append (t := []) hs rfl
  have hkeyword : Lexer.keyword? "NDATA" (skipBlanks s) = none := by rw [hend]; rfl
  unfold readNotation
  split
  · next hsome =>
    rw [hkeyword] at hsome
    cases hsome
  · rfl

theorem exists_of_read (h : read t = .ok (d, r)) : ∃ u, t = u ++ r ∧ Written u d := by
  unfold read at h
  split at h
  · obtain ⟨⟨v, t₁⟩, hquoted, h⟩ := Lexer.bind_eq_ok h
    cases h
    obtain ⟨u, rfl, hu⟩ := literal_append_iff.2 hquoted
    exact ⟨u, rfl, .literal hu⟩
  · obtain ⟨⟨id, t₁⟩, hid, h⟩ := Lexer.bind_eq_ok h
    obtain ⟨⟨notationName, t₂⟩, hformat, h⟩ := Lexer.bind_eq_ok h
    cases h
    obtain ⟨u, rfl, hu⟩ := ExternalId.exists_of_read hid
    rcases exists_of_readNotation hformat with ⟨rfl, rfl⟩ | ⟨s, s', n, rfl, hs, hs', hn, rfl⟩
    · exact ⟨u, rfl, .parsed hu⟩
    · exact ⟨u ++ s ++ "NDATA".toList ++ s' ++ n, by simp, .unparsed hu hs hs' hn⟩

theorem read_external {notationName : Option Text} {g : Text}
    (hu : ExternalId.Written false u id) (hg : Lexer.startsQuoted (skipBlanks g) = false)
    (hformat : readNotation g = .ok (notationName, r)) :
    read (u ++ g) = .ok (.external id notationName, r) := by
  simp only [read, hu.startsQuoted, ExternalId.read_append hu hg, hformat, bind, Except.bind,
    pure, Except.pure]
  rfl

theorem read_append (h : Written u d) (hs : Gap s) : read (u ++ s) = .ok (d, s) := by
  cases h with
  | literal hu =>
      simp only [read, Lexer.startsQuoted_literal hu, literal_append_iff.1 ⟨u, rfl, hu⟩,
        if_true, bind, Except.bind, pure, Except.pure]
  | parsed hu => exact read_external hu (ExternalId.startsQuoted_gap hs) (readNotation_gap hs)
  | @unparsed u s₁ s₂ n id hu hs₁ hs₂ hn =>
      have hends : startsNameChar s = false := by
        simpa using Text.startsNameChar_blanks (r := []) hs rfl
      have hskip : skipBlanks (s₁ ++ ("NDATA".toList ++ (s₂ ++ (n ++ s)))) =
          "NDATA".toList ++ (s₂ ++ (n ++ s)) :=
        skipBlanks_append hs₁.2 rfl
      simp only [List.append_assoc]
      exact read_external hu (by rw [hskip]; rfl) (readNotation_append hs₁ hs₂ hn hends)

theorem Written.startsBlank (h : Written u d) (r : Text) : startsBlank (u ++ r) = false := by
  cases h with
  | literal h => exact Lexer.startsBlank_literal h r
  | parsed h => exact ExternalId.Written.startsBlank h r
  | unparsed h =>
      simp only [List.append_assoc]
      exact ExternalId.Written.startsBlank h _

theorem readNotation_places : Places readNotation := by
  intro t f h
  unfold readNotation at h
  split at h
  · next t₁ _ hkeyword =>
    refine List.IsSuffix.trans ?_
      ((Lexer.keyword?_suffix hkeyword).trans (Text.skipBlanks_suffix t))
    refine (requireBlanks_stays _).places.bind (Lexer.requireBlanks_bounded _) h
      fun _ t₂ _ h => ?_
    dsimp only at h
    split at h
    · cases h
    · cases h
      exact List.suffix_rfl
  · cases h

theorem read_places : Places read := by
  intro t f h
  unfold read at h
  split at h
  · refine quoted_stays.places.bind Lexer.quoted_bounded h fun _ t₁ _ h => ?_
    cases h
  · refine (ExternalId.read_places false).bind (ExternalId.reads_read false).bounded h
      fun _ t₁ _ h => ?_
    rcases Content.bind_eq_error_iff.1 h with h | ⟨_, -, h⟩
    · exact readNotation_places t₁ f h
    · cases h

theorem reads_read : Lexer.Reads read Written where
  sound _ _ _ h := exists_of_read h
  complete _ _ s hu hs := ⟨hu.startsBlank s, read_append hu hs⟩
  places := read_places

end Entity.Definition

open Lexer (Framed)
open Entity (Definition)

/-- Definitions of entities and identifiers of notations are read exactly as the grammar writes
them between blanks. Every other text is refused with an error at a place in the text that lies
between two of its characters. -/
theorem Entity.Definition.parse_accepts_written (raw : Text) :
    ((∀ d, Definition.parse raw = .ok d ↔ Framed Definition.Written raw d) ∧
      ((∃ e, Definition.parse raw = .error e) ↔ ¬ ∃ d, Framed Definition.Written raw d) ∧
      (∀ e, Definition.parse raw = .error e →
        e.offset ≤ Text.size raw ∧ ∃ front rest, raw = front ++ rest ∧
          e.offset = Text.size front)) ∧
    (∀ id, ExternalId.ofNotation raw = .ok id ↔ Framed (ExternalId.Written true) raw id) ∧
      ((∃ e, ExternalId.ofNotation raw = .error e) ↔
        ¬ ∃ id, Framed (ExternalId.Written true) raw id) ∧
      ∀ e, ExternalId.ofNotation raw = .error e →
        e.offset ≤ Text.size raw ∧ ∃ front rest, raw = front ++ rest ∧
          e.offset = Text.size front :=
  ⟨Definition.reads_read.whole raw, (ExternalId.reads_read true).whole raw⟩

example :
    Definition.parse "SYSTEM 'a.gif'\nNDATA gif " =
      .ok (.external ⟨none, some "a.gif"⟩ (some "gif")) := by
  decide +kernel

example : ExternalId.ofNotation " PUBLIC '\t-//é  DTD ' " = .ok ⟨some "-//é DTD", none⟩ := by
  decide +kernel

end Doctype
