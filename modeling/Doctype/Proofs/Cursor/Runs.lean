import Doctype.Proofs.Cursor.Slices

/-!
What every run of a cursor keeps. A run takes any steps one after the other, from the start of
a text; it goes back only to offsets that the cursor was at. The cursor always stands between
two characters (`Stands`), since what a step reads is a text in front of what is left, and
every offset that was told is a boundary. So each step of a run does what it says (`Follows`,
`runs_follow`).
-/

namespace Doctype.Cursor

open Text (offset)

/-- Whether a step may be taken if these offsets were told: it goes to one of them, if
anywhere. -/
def Step.IsAllowed (told : List Nat) (s : Step) : Prop :=
  ∀ n, s = .seek n → n ∈ told

/-- `Runs input told c`: some steps lead from the start of the text to the cursor, which was at
the offsets `told`. -/
inductive Runs (input : Text) : List Nat → Cursor → Prop
  | start : Runs input [0] (.start input)
  | step {told : List Nat} {c : Cursor} {s : Step} : Runs input told c → s.IsAllowed told →
      Runs input ((c.perform s).2.position :: told) (c.perform s).2

structure Stands (input : Text) (c : Cursor) : Prop where
  input_eq : c.input = input
  rest_suffix : c.rest <:+ input
  inside_eq : c.inside = 0

/-- `Follows input c s a d`: in the text the step leads from the cursor `c` to `d` as it must,
and answers `a`. -/
structure Follows (input : Text) (c : Cursor) (s : Step) (a : Answer) (d : Cursor) : Prop where
  /-- It ends between two characters. -/
  boundary : input.IsBoundary d.position
  le_size : d.position ≤ Text.size input
  /-- It does not go back. -/
  forward : s.isSeek = false → c.position ≤ d.position
  /-- If it reads, it goes behind the text that it reads. -/
  reads : a.isFailure = false → s.isSeek = false → ∃ u r, s.Consumes a u r ∧
    input.from? c.position = some (u ++ r) ∧ d.position = c.position + Text.size u ∧
    input.from? d.position = some r
  /-- If it fails, it stays, and there is nothing that it reads. -/
  stays : a.isFailure = true → s.isCompound = false →
    d = c ∧ ∀ b u r, s.Consumes b u r → input.from? c.position ≠ some (u ++ r)
  /-- It goes to the offset that it is told. -/
  seeks : ∀ n, s = .seek n → d.position = n
  /-- By byte offsets it comes to the same, and no slice is missing. -/
  slices : performAt input s c.position = some (a, d.position)

variable {input rest : Text} {c : Cursor} {s : Step} {a : Answer} {told : List Nat} {n : Nat}

/-! ### Places -/

theorem stands_start (input : Text) : Stands input (.start input) :=
  ⟨rfl, List.suffix_rfl, rfl⟩

theorem Stands.moveTo (h : Stands input c) (hrest : rest <:+ input) :
    Stands input (c.moveTo rest) :=
  ⟨h.input_eq, hrest, rfl⟩

theorem Stands.position (h : Stands input c) : c.position = offset input c.rest := by
  rw [position_of_inside h.inside_eq, h.input_eq]

theorem Stands.boundary (h : Stands input c) : input.IsBoundary c.position :=
  h.position ▸ Text.isBoundary_offset h.rest_suffix

theorem Stands.from? (h : Stands input c) : input.from? c.position = some c.rest :=
  h.position ▸ Text.from?_offset h.rest_suffix

/-- At a boundary no character is split. -/
theorem Stands.seek (h : Stands input c) (hn : input.IsBoundary n) :
    Stands input (c.seek n) := by
  obtain ⟨rest, hrest, rfl, hdrop⟩ := hn.exists_rest
  rw [Cursor.seek, h.input_eq, hdrop, Nat.sub_self, ite_self]
  exact ⟨rfl, hrest, rfl⟩

/-! ### Steps -/

/-- A step that is allowed ends between two characters. -/
theorem Stands.perform (h : Stands input c) (htold : ∀ n ∈ told, input.IsBoundary n)
    (hs : s.IsAllowed told) : Stands input (c.perform s).2 := by
  cases hseek : s.isSeek with
  | false =>
      obtain ⟨r, hmove, hdoes⟩ := performs h.inside_eq hseek
      rw [hmove]
      exact h.moveTo (hdoes.suffix.trans h.rest_suffix)
  | true =>
      cases s with
      | seek n => exact h.seek (htold n (hs n rfl))
      | _ => cases hseek

theorem Stands.position_le (h : Stands input c) (hs : s.isSeek = false) :
    c.position ≤ (c.perform s).2.position := by
  obtain ⟨r, hmove, hdoes⟩ := performs h.inside_eq hs
  have hr : r <:+ input := hdoes.suffix.trans h.rest_suffix
  rw [hmove, (h.moveTo hr).position, h.position]
  exact (Text.offset_trans h.rest_suffix hdoes.suffix).symm ▸ Nat.le_add_right _ _

theorem Stands.reads (h : Stands input c) (hs : s.isSeek = false)
    (ha : (c.perform s).1.isFailure = false) :
    ∃ u r, s.Consumes (c.perform s).1 u r ∧ input.from? c.position = some (u ++ r) ∧
      (c.perform s).2.position = c.position + Text.size u ∧
        input.from? (c.perform s).2.position = some r := by
  obtain ⟨r, hmove, hdoes⟩ := performs h.inside_eq hs
  have hr : Stands input (c.moveTo r) := h.moveTo (hdoes.suffix.trans h.rest_suffix)
  rw [hmove, hr.from?, hr.position, h.from?, h.position]
  generalize (c.perform s).1 = a at ha hdoes
  cases hdoes with
  | @consumes _ u _ hu hrest =>
      have hoffset := Text.offset_append (hrest ▸ h.rest_suffix)
      exact ⟨u, r, hu, congrArg some hrest, hrest ▸ hoffset, rfl⟩
  | stays hfailure =>
      rw [ha] at hfailure
      cases hfailure
  | stops => cases ha

theorem Stands.stays (h : Stands input c) (hs : s.isCompound = false)
    (ha : (c.perform s).1.isFailure = true) :
    (c.perform s).2 = c ∧ ∀ b u r, s.Consumes b u r →
      input.from? c.position ≠ some (u ++ r) := by
  have hseek : s.isSeek = false := by
    cases s with
    | seek n => cases ha
    | _ => rfl
  obtain ⟨r, hmove, hdoes⟩ := performs h.inside_eq hseek
  rw [hmove, h.from?]
  generalize (c.perform s).1 = a at ha hdoes
  cases hdoes with
  | consumes hu =>
      rw [hu.isFailure] at ha
      cases ha
  | stays _ hnothing =>
      exact ⟨moveTo_rest h.inside_eq, fun b u r hu heq =>
        hnothing b u r hu (Option.some.inj heq)⟩
  | stops hcompound =>
      rw [hs] at hcompound
      cases hcompound

theorem Stands.performAt (h : Stands input c) (s : Step) :
    performAt input s c.position = some ((c.perform s).1, (c.perform s).2.position) := by
  have hperform := performAt_position h.inside_eq (h.input_eq ▸ h.rest_suffix) s
  rwa [h.input_eq] at hperform

theorem Stands.follows (h : Stands input c) (htold : ∀ n ∈ told, input.IsBoundary n)
    (hs : s.IsAllowed told) : Follows input c s (c.perform s).1 (c.perform s).2 where
  boundary := (h.perform htold hs).boundary
  le_size := (h.perform htold hs).boundary.le_size
  forward := h.position_le
  reads ha hseek := h.reads hseek ha
  stays ha hcompound := h.stays hcompound ha
  seeks n hn := by
    subst hn
    rw [Cursor.perform, position_seek, h.input_eq]
    exact Nat.min_eq_left (htold n (hs n rfl)).le_size
  slices := h.performAt s

/-! ### Runs -/

theorem Runs.stands (h : Runs input told c) :
    Stands input c ∧ ∀ n ∈ told, input.IsBoundary n := by
  induction h with
  | start =>
      refine ⟨stands_start input, fun n hn => ?_⟩
      obtain rfl : n = 0 := by simpa using hn
      exact Text.isBoundary_size [] input
  | step _ hs ih =>
      obtain ⟨hc, htold⟩ := ih
      have hd := hc.perform htold hs
      refine ⟨hd, fun n hn => ?_⟩
      rcases List.mem_cons.1 hn with rfl | hn
      · exact hd.boundary
      · exact htold n hn

/-- However a run came to a cursor, it stands between two characters of the text, and every
step from there does what it says. -/
theorem runs_follow (h : Runs input told c) :
    (input.IsBoundary c.position ∧ c.position ≤ Text.size input) ∧
      (∀ n ∈ told, input.IsBoundary n) ∧
      ∀ s : Step, s.IsAllowed told → Follows input c s (c.perform s).1 (c.perform s).2 := by
  obtain ⟨hc, htold⟩ := h.stands
  exact ⟨⟨hc.boundary, hc.boundary.le_size⟩, htold, fun s hs => hc.follows htold hs⟩

/-- A literal that is not closed is not read, and from there the cursor goes back behind the
name of two bytes. -/
theorem runs_follow_literal :
    ∃ told c, Runs "é 'x" told c ∧ c.position = 3 ∧ (c.perform .quoted).2 = c ∧
      performAt "é 'x" .quoted 3 = some (.error ⟨.unterminatedLiteral, 3⟩, 3) ∧
        (c.perform (.seek 2)).2.position = 2 := by
  have hname : Step.name.IsAllowed [0] := fun n hn => by cases hn
  have hblanks : Step.skipBlanks.IsAllowed [2, 0] := fun n hn => by cases hn
  have hrun : Runs "é 'x" [3, 2, 0] _ :=
    .step (s := .skipBlanks) (.step (s := .name) .start hname) hblanks
  obtain ⟨-, -, hfollow⟩ := runs_follow hrun
  have hquoted := hfollow .quoted fun n hn => by cases hn
  have hseek := hfollow (.seek 2) fun n hn => by
    cases hn
    decide
  exact ⟨_, _, hrun, rfl, (hquoted.stays rfl rfl).1, hquoted.slices, hseek.seeks 2 rfl⟩

end Doctype.Cursor
