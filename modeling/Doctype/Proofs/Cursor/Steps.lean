import Doctype.Cursor.Step
import Doctype.Proofs.Declaration.Definition
import Doctype.Proofs.Text.Slicing

/-!
What the steps of a cursor read. A step is told together with what it answers
(`Cursor.perform`). Apart from any way of reading it, `Step.Consumes` says which text a step
reads in front of which other text, and what it answers to that. A step does what it says, or
nothing if there is nothing to read (`Step.Does`, `performs`); only the reading of an external
identifier may be broken off on its way.
-/

namespace Doctype

namespace Lexer

variable {t r : Text}

theorem char_eq_ok_iff {expected : Char} {x : Unit} :
    char expected t = .ok (x, r) ↔ t = expected :: r := by
  cases t with
  | nil => simp [char]
  | cons d t =>
      by_cases hd : d = expected
      · simp [char, hd]
      · simp [char, hd]

theorem char_stays (expected : Char) : Stays (char expected) := by
  intro t f h
  unfold char at h
  split at h
  · split at h <;> cases h
    rfl
  · cases h
    rfl

end Lexer

namespace Cursor

open Attribute.Grammar (Gap Literal)
open Text (startsBlank startsNameChar)

/-! ### Steps -/

def Step.isSeek : Step → Bool
  | seek _ => true
  | _ => false

/-- Whether a step reads several parts, so that it may fail behind the first of them. -/
def Step.isCompound : Step → Bool
  | externalId _ => true
  | _ => false

/-! ### What is read -/

/-- `Step.Consumes s a u r`: in front of `r` the step reads the text `u` and answers `a`. -/
inductive Step.Consumes : Step → Answer → Text → Text → Prop
  | skipBlanks {u r : Text} :
      Gap u → startsBlank r = false → Consumes .skipBlanks (.bytes (Text.size u)) u r
  | requireBlanks {context u r : Text} : Gap u → startsBlank r = false → (u = [] → r = []) →
      Consumes (.requireBlanks context) .done u r
  | eat {mark r : Text} : Consumes (.eat mark) .done mark r
  | eatKeyword {keyword r : Text} :
      startsNameChar r = false → Consumes (.eatKeyword keyword) .done keyword r
  | expectChar {expected : Char} {r : Text} :
      Consumes (.expectChar expected) .done [expected] r
  | name {n r : Text} :
      Text.IsLongest (Text.isName · = true) (n ++ r) n → Consumes .name (.text n) n r
  | nmtoken {n r : Text} :
      Text.IsLongest Text.IsNmtoken (n ++ r) n → Consumes .nmtoken (.text n) n r
  | quoted {u v r : Text} : Literal u v → Consumes .quoted (.text v) u r
  | externalId {publicAlone : Bool} {id : ExternalId} {u r : Text} :
      ExternalId.Written publicAlone u id →
      Consumes (.externalId publicAlone) (.id id) u r

/-- `Step.Does s t a r`: in front of the text `t` the step answers `a`, and `r` is left. -/
inductive Step.Does (s : Step) (t : Text) : Answer → Text → Prop
  /-- It reads a text. -/
  | consumes {a : Answer} {u r : Text} : s.Consumes a u r → t = u ++ r → Does s t a r
  /-- There is nothing that it reads, and it stays. -/
  | stays {a : Answer} :
      a.isFailure = true → (∀ b u r, s.Consumes b u r → t ≠ u ++ r) → Does s t a t
  /-- It is broken off on its way. -/
  | stops {e : Lexer.Error} {r : Text} : s.isCompound = true → r <:+ t → Does s t (.error e) r

variable {c : Cursor} {s : Step} {a : Answer} {t u r : Text}

theorem Step.Consumes.isFailure (h : s.Consumes a u r) : a.isFailure = false := by
  cases h <;> rfl

theorem Step.Does.suffix (h : s.Does t a r) : r <:+ t := by
  cases h with
  | @consumes _ u _ _ ht => exact ⟨u, ht.symm⟩
  | stays => exact List.suffix_rfl
  | stops _ hr => exact hr

/-! ### Kinds of steps -/

theorem moveTo_rest (hc : c.inside = 0) : c.moveTo c.rest = c := by
  rw [moveTo, ← hc]

/-- `Performs c s`: at the cursor the step does what it says, and leaves the cursor in front of
what is left. -/
def Performs (c : Cursor) (s : Step) : Prop :=
  ∃ r, (c.perform s).2 = c.moveTo r ∧ s.Does c.rest (c.perform s).1 r

theorem performs_of_read? {β : Type} {reader : Text → Option β} {answer : β → Answer}
    {behind : β → Text} (hc : c.inside = 0)
    (hperform : c.perform s = (reader c.rest).elim (.missing, c) fun b =>
      (answer b, c.moveTo (behind b)))
    (hread : ∀ b, reader c.rest = some b → ∃ u, c.rest = u ++ behind b ∧
      s.Consumes (answer b) u (behind b))
    (hcomplete : ∀ a u r, s.Consumes a u r → reader (u ++ r) ≠ none) : c.Performs s := by
  rw [Performs, hperform]
  cases hreader : reader c.rest with
  | none =>
      refine ⟨c.rest, (moveTo_rest hc).symm, .stays rfl fun a u r hu heq => ?_⟩
      exact hcomplete a u r hu (heq ▸ hreader)
  | some b =>
      obtain ⟨u, hrest, hu⟩ := hread b hreader
      exact ⟨behind b, rfl, .consumes hu hrest⟩

theorem performs_of_read {α : Type} {lexer : Lexer α} {write : α → Answer}
    (hperform : c.perform s = (c.read lexer).map (.ofRead write) id)
    (hread : ∀ a r, lexer c.rest = .ok (a, r) → ∃ u, c.rest = u ++ r ∧
      s.Consumes (write a) u r)
    (hfail : ∀ f, lexer c.rest = .error f →
      s.Does c.rest (.error (f.toError c.input)) f.rest) :
    c.Performs s := by
  rw [Performs, hperform, read]
  cases hlexer : lexer c.rest with
  | error f => exact ⟨f.rest, rfl, hfail f hlexer⟩
  | ok p =>
      obtain ⟨u, hrest, hu⟩ := hread p.1 p.2 hlexer
      exact ⟨p.2, rfl, .consumes hu hrest⟩

theorem does_of_stays {α : Type} {lexer : Lexer α} {f : Lexer.Failure} {input : Text}
    (hstays : Lexer.Stays lexer)
    (hcomplete : ∀ b u r, s.Consumes b u r → ∃ p, lexer (u ++ r) = .ok p)
    (h : lexer t = .error f) : s.Does t (.error (f.toError input)) f.rest := by
  rw [hstays t f h]
  refine .stays rfl fun b u r hu heq => ?_
  obtain ⟨p, hp⟩ := hcomplete b u r hu
  rw [heq, hp] at h
  cases h

/-! ### Blanks -/

theorem performs_skipBlanks (c : Cursor) : c.Performs .skipBlanks := by
  obtain ⟨hr, u, hrest, hu⟩ := Text.skipBlanks_eq_iff.1 (Eq.refl (Text.skipBlanks c.rest))
  have hsize : Text.offset c.rest (Text.skipBlanks c.rest) = Text.size u :=
    (congrArg (Text.offset · (Text.skipBlanks c.rest)) hrest).trans
      (Text.offset_append_left u _)
  have hanswer : (c.perform .skipBlanks).1 = .bytes (Text.size u) :=
    congrArg Answer.bytes hsize
  exact ⟨Text.skipBlanks c.rest, rfl, hanswer ▸ .consumes (.skipBlanks hu hr) hrest⟩

theorem performs_requireBlanks (c : Cursor) (context : Text) :
    c.Performs (.requireBlanks context) := by
  refine performs_of_read rfl (fun a r h => ?_) fun f h => ?_
  · rcases Lexer.requireBlanks_eq_ok_iff.1 h with ⟨hrest, rfl⟩ | ⟨hr, u, hrest, hne, hu⟩
    · exact ⟨[], by rw [hrest]; rfl, .requireBlanks (by simp [Gap]) rfl fun _ => rfl⟩
    · exact ⟨u, hrest, .requireBlanks hu hr fun hnil => absurd hnil hne⟩
  · refine does_of_stays (Lexer.requireBlanks_stays context) (fun b u r hu => ?_) h
    cases hu with
    | requireBlanks hu hr hend =>
        refine ⟨((), r), Lexer.requireBlanks_eq_ok_iff.2 ?_⟩
        by_cases hnil : u = []
        · exact .inl ⟨by rw [hnil, hend hnil]; rfl, hend hnil⟩
        · exact .inr ⟨hr, u, rfl, hnil, hu⟩

/-! ### Marks and keywords -/

theorem perform_eat (c : Cursor) (mark : Text) :
    c.perform (.eat mark) = (Text.dropPrefix? mark c.rest).elim (.missing, c) fun r =>
      (.done, c.moveTo r) := by
  simp only [perform, eat]
  cases Text.dropPrefix? mark c.rest <;> rfl

theorem performs_eat (hc : c.inside = 0) (mark : Text) : c.Performs (.eat mark) := by
  refine performs_of_read? hc (c.perform_eat mark)
    (fun r h => ⟨mark, Text.dropPrefix?_eq_some h, .eat⟩) ?_
  intro a u r hu
  cases hu
  simp [Text.dropPrefix?_append]

theorem perform_eatKeyword (c : Cursor) (keyword : Text) :
    c.perform (.eatKeyword keyword) =
      (Lexer.keyword? keyword c.rest).elim (.missing, c) fun r => (.done, c.moveTo r) := by
  simp only [perform, eatKeyword]
  cases Lexer.keyword? keyword c.rest <;> rfl

theorem performs_eatKeyword (hc : c.inside = 0) (keyword : Text) :
    c.Performs (.eatKeyword keyword) := by
  refine performs_of_read? hc (c.perform_eatKeyword keyword) (fun r h => ?_) ?_
  · obtain ⟨hrest, hr⟩ := Lexer.keyword?_eq_some_iff.1 h
    exact ⟨keyword, hrest, .eatKeyword hr⟩
  · intro a u r hu
    cases hu with
    | eatKeyword hr => simp [Lexer.keyword?_eq_some_iff.2 ⟨rfl, hr⟩]

theorem performs_expectChar (c : Cursor) (expected : Char) :
    c.Performs (.expectChar expected) := by
  refine performs_of_read rfl
    (fun a r h => ⟨[expected], Lexer.char_eq_ok_iff.1 h, .expectChar⟩) fun f h => ?_
  refine does_of_stays (Lexer.char_stays expected) (fun b u r hu => ?_) h
  cases hu
  exact ⟨((), r), Lexer.char_eq_ok_iff.2 rfl⟩

/-! ### Names -/

theorem map_read? (c : Cursor) (reader : Text → Option (Text × Text)) :
    (c.read? reader).map Answer.ofText? id =
      (reader c.rest).elim (Answer.missing, c) fun p => (Answer.text p.1, c.moveTo p.2) := by
  rw [read?]
  cases reader c.rest <;> rfl

theorem performs_of_isLongest {P : Text → Prop} {reader : Text → Option (Text × Text)}
    (hc : c.inside = 0) (hperform : c.perform s = (c.read? reader).map .ofText? id)
    (hreader : ∀ {t n r}, reader t = some (n, r) ↔ t = n ++ r ∧ Text.IsLongest P t n)
    (hconsumes : ∀ {n r}, Text.IsLongest P (n ++ r) n → s.Consumes (.text n) n r)
    (hlongest : ∀ a u r, s.Consumes a u r → Text.IsLongest P (u ++ r) u) : c.Performs s := by
  refine performs_of_read? hc (hperform.trans (map_read? c reader)) (fun p h => ?_)
    (fun a u r hu => ?_)
  · obtain ⟨hrest, hn⟩ := hreader.1 h
    exact ⟨p.1, hrest, hconsumes (hrest ▸ hn)⟩
  · rw [hreader.2 ⟨rfl, hlongest a u r hu⟩]
    exact Option.some_ne_none _

theorem performs_name (hc : c.inside = 0) : c.Performs .name := by
  refine performs_of_isLongest hc rfl Text.name?_eq_some_iff_isLongest .name fun a u r hu => ?_
  cases hu with
  | name hn => exact hn

theorem performs_nmtoken (hc : c.inside = 0) : c.Performs .nmtoken := by
  refine performs_of_isLongest hc rfl Text.nmtoken?_eq_some_iff_isLongest .nmtoken
    fun a u r hu => ?_
  cases hu with
  | nmtoken hn => exact hn

/-! ### Literals and identifiers -/

theorem performs_quoted (c : Cursor) : c.Performs .quoted := by
  refine performs_of_read rfl (fun v r h => ?_) fun f h => ?_
  · obtain ⟨u, hrest, hu⟩ := Attribute.literal_append_iff.2 h
    exact ⟨u, hrest, .quoted hu⟩
  · refine does_of_stays Lexer.quoted_stays (fun b u r hu => ?_) h
    cases hu with
    | @quoted _ v _ hu => exact ⟨(v, r), Attribute.literal_append_iff.1 ⟨u, rfl, hu⟩⟩

theorem performs_externalId (c : Cursor) (publicAlone : Bool) :
    c.Performs (.externalId publicAlone) := by
  refine performs_of_read rfl (fun id r h => ?_) fun f h => ?_
  · obtain ⟨u, hrest, hu⟩ := ExternalId.exists_of_read h
    exact ⟨u, hrest, .externalId hu⟩
  · exact .stops rfl (ExternalId.read_places publicAlone c.rest f h)

/-- Between two characters every step that goes nowhere else does what it says. -/
theorem performs (hc : c.inside = 0) (hs : s.isSeek = false) : c.Performs s := by
  cases s with
  | skipBlanks => exact c.performs_skipBlanks
  | requireBlanks context => exact c.performs_requireBlanks context
  | eat mark => exact performs_eat hc mark
  | eatKeyword keyword => exact performs_eatKeyword hc keyword
  | expectChar expected => exact c.performs_expectChar expected
  | name => exact performs_name hc
  | nmtoken => exact performs_nmtoken hc
  | quoted => exact c.performs_quoted
  | externalId publicAlone => exact c.performs_externalId publicAlone
  | seek n => cases hs

end Cursor
end Doctype
