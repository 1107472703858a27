import Doctype.Cursor.Offset
import Doctype.Proofs.Cursor.Steps
import Doctype.Proofs.Markup.Offsets

/-!
The steps of a cursor by byte offsets. A reader takes slices of the text at the offset that it
keeps and adds the bytes of what it read: of one character after the other, of a mark, up to a
character that is searched for, or with the two quotation marks of a literal. It has no answer
where a slice is not there. At the offset of what is left of the text each reader does what the
lexer of it does with that (`OffsetReader.Agrees`), so no slice of a cursor between two
characters is missing (`Cursor.performAt_position`).
-/

namespace Doctype

open Text (offset)

namespace OffsetReader

variable {α β : Type}

@[simp] theorem runAt_pure (a : α) (pos : Nat) :
    (pure a : OffsetReader α).runAt pos = some (.ok a, pos) :=
  rfl

@[simp] theorem runAt_get (pos : Nat) :
    (get : OffsetReader Nat).runAt pos = some (.ok pos, pos) :=
  rfl

@[simp] theorem runAt_set (stop pos : Nat) :
    (set stop : OffsetReader Unit).runAt pos = some (.ok (), stop) :=
  rfl

@[simp] theorem runAt_modify (f : Nat → Nat) (pos : Nat) :
    (modify f : OffsetReader Unit).runAt pos = some (.ok (), f pos) :=
  rfl

@[simp] theorem runAt_fail (fault : Lexer.Fault) (pos : Nat) :
    (fail fault : OffsetReader α).runAt pos = some (.error ⟨fault, pos⟩, pos) :=
  rfl

@[simp] theorem ofOption_some (a : α) : ofOption (some a) = pure a :=
  rfl

theorem runAt_bind (reader : OffsetReader α) (next : α → OffsetReader β) (pos : Nat) :
    (reader >>= next).runAt pos = (reader.runAt pos).bind fun p =>
      match p with
      | (.ok a, stop) => (next a).runAt stop
      | (.error e, stop) => some (.error e, stop) := by
  change (reader.runAt pos).bind _ = _
  refine congrArg _ (funext fun p => ?_)
  obtain ⟨a | e, stop⟩ := p <;> rfl

@[simp] theorem runAt_map (f : α → β) (reader : OffsetReader α) (pos : Nat) :
    (f <$> reader).runAt pos = (reader.runAt pos).map fun p => (p.1.map f, p.2) := by
  rw [← bind_pure_comp, runAt_bind]
  cases hread : reader.runAt pos with
  | none => rfl
  | some p => obtain ⟨a | e, stop⟩ := p <;> rfl

theorem runAt_bind_of_eq {reader : OffsetReader α} {next : α → OffsetReader β}
    {pos stop : Nat} {a : α} (h : reader.runAt pos = some (.ok a, stop)) :
    (reader >>= next).runAt pos = (next a).runAt stop := by
  rw [runAt_bind, h]
  rfl

/-! ### Agreement -/

variable {input rest : Text} {reader : OffsetReader α} {lexer : Lexer α}

def placed (input : Text) : Except Lexer.Failure (α × Text) → Except Lexer.Error α × Nat
  | .ok (a, rest) => (.ok a, offset input rest)
  | .error f => (.error (f.toError input), offset input f.rest)

/-- At every place in the text the reader does by offsets what the lexer does with what is left
there. -/
def Agrees (input : Text) (reader : OffsetReader α) (lexer : Lexer α) : Prop :=
  ∀ rest, rest <:+ input → reader.runAt (offset input rest) = some (placed input (lexer rest))

theorem Agrees.runAt_bind {next : α → OffsetReader β}
    {more : α × Text → Except Lexer.Failure (β × Text)} (h : Agrees input reader lexer)
    (hbounded : Lexer.Bounded lexer) (hrest : rest <:+ input)
    (hnext : ∀ a r, r <:+ input →
      (next a).runAt (offset input r) = some (placed input (more (a, r)))) :
    (reader >>= next).runAt (offset input rest) =
      some (placed input (lexer rest >>= more)) := by
  rw [OffsetReader.runAt_bind, h rest hrest]
  cases hlexer : lexer rest with
  | error f => rfl
  | ok p => exact hnext p.1 p.2 ((hbounded rest p.1 p.2 hlexer).trans hrest)

/-! ### What the readers read -/

variable {mark keyword context : Text} {pos : Nat}

theorem runAt_left (h : rest <:+ input) :
    (left input).runAt (offset input rest) = some (.ok rest, offset input rest) := by
  simp [left, runAt_bind, Text.from?_offset h]

theorem agrees_skipBlanks :
    Agrees input (skipBlanks input) fun t =>
      .ok (offset t (Text.skipBlanks t), Text.skipBlanks t) := by
  intro rest h
  have hoffset := Text.offset_trans h (Text.skipBlanks_suffix rest)
  have hbytes : offset input (Text.skipBlanks rest) - offset input rest =
    offset rest (Text.skipBlanks rest) := by omega
  simp [skipBlanks, runAt_bind, Markup.passBlanksAt_offset h, hbytes, placed, Except.map]

theorem skipped_pos_iff (t : Text) :
    0 < offset t (Text.skipBlanks t) ↔ Text.startsBlank t = true := by
  cases t with
  | nil => simp [Text.skipBlanks, Text.startsBlank]
  | cons c t =>
      cases hc : isBlank c with
      | false => simp [Text.skipBlanks, Text.startsBlank, hc]
      | true =>
          have hskip : Text.skipBlanks (c :: t) = Text.skipBlanks t :=
            List.dropWhile_cons_of_pos hc
          have hlength := (Text.skipBlanks_suffix t).length_le
          have hlt :=
            Text.offset_lt (List.suffix_refl (c :: t)) (Text.skipBlanks_suffix (c :: t)) (by
            rw [hskip, List.length_cons]
            omega)
          rw [Text.offset_self] at hlt
          simp [hlt, Text.startsBlank, hc]

theorem agrees_requireBlanks :
    Agrees input (requireBlanks input context) (Lexer.requireBlanks context) := by
  intro rest h
  have hbytes := skipped_pos_iff rest
  rw [requireBlanks, runAt_bind_of_eq (agrees_skipBlanks rest h),
    runAt_bind_of_eq (runAt_get _)]
  cases rest with
  | nil => simp [placed, Lexer.requireBlanks, Text.skipBlanks]
  | cons c rest =>
      cases hc : isBlank c with
      | false =>
          have hsize := Text.offset_add_size h
          have hpos := c.utf8Size_pos
          rw [Text.size_cons] at hsize
          have hlt : offset input (c :: rest) < Text.size input := by omega
          simp [placed, Lexer.requireBlanks, Text.skipBlanks, hc, hlt, Lexer.Failure.toError]
      | true =>
          have hskip : Text.skipBlanks (c :: rest) = Text.skipBlanks rest :=
            List.dropWhile_cons_of_pos hc
          rw [if_neg fun hnone => Nat.ne_of_gt (hbytes.2 hc) hnone.1, hskip,
            Lexer.requireBlanks, if_pos hc]
          rfl

theorem agrees_eat :
    Agrees input (eat input mark) fun t =>
      .ok ((Text.dropPrefix? mark t).elim (false, t) (true, ·)) := by
  intro rest h
  rw [eat, runAt_bind_of_eq (runAt_left h), Text.isPrefixOf_eq_isSome]
  cases hdrop : Text.dropPrefix? mark rest with
  | none => simp [hdrop, placed]
  | some r =>
      obtain rfl := Text.dropPrefix?_eq_some hdrop
      simp [hdrop, placed, Text.offset_append h, Except.map]

theorem agrees_eatKeyword :
    Agrees input (eatKeyword input keyword) fun t =>
      .ok ((Lexer.keyword? keyword t).elim (false, t) (true, ·)) := by
  intro rest h
  rw [eatKeyword, runAt_bind_of_eq (runAt_left h), Text.isPrefixOf_eq_isSome]
  cases hdrop : Text.dropPrefix? keyword rest with
  | none => simp [hdrop, placed, Lexer.keyword?]
  | some r =>
      obtain rfl := Text.dropPrefix?_eq_some hdrop
      cases hr : Text.startsNameChar r <;>
        simp [hdrop, placed, Lexer.keyword?, Text.from?_size, hr,
          Text.offset_append h, Except.map]

theorem agrees_char (expected : Char) :
    Agrees input (char input expected) (Lexer.char expected) := by
  intro rest h
  rw [char, runAt_bind_of_eq (runAt_left h)]
  cases rest with
  | nil => simp [placed, Lexer.char, Lexer.Failure.toError]
  | cons c rest =>
      by_cases hc : c = expected
      · simp [placed, Lexer.char, hc, Text.offset_cons (hc ▸ h)]
      · simp [placed, Lexer.char, hc, Lexer.Failure.toError]

theorem agrees_name :
    Agrees input (name input) fun t =>
      .ok ((Text.name? t).elim (none, t) fun p => (some p.1, p.2)) := by
  intro rest h
  rw [name, runAt_bind_of_eq (runAt_get _)]
  cases hname : Text.name? rest <;> simp [Markup.nameAt_offset h, hname, placed, Except.map]

theorem agrees_nmtoken :
    Agrees input (nmtoken input) fun t =>
      .ok ((Text.nmtoken? t).elim (none, t) fun p => (some p.1, p.2)) := by
  intro rest h
  rw [nmtoken, runAt_bind_of_eq (runAt_left h), Text.findChar?_not]
  have hparts : rest.takeWhile isNameChar ++ rest.dropWhile isNameChar = rest :=
    List.takeWhile_append_dropWhile
  have hslice := Text.upTo?_size (rest.takeWhile isNameChar) (rest.dropWhile isNameChar)
  have hstop := Text.offset_append (hparts ▸ h)
  rw [hparts] at hslice hstop
  cases rest with
  | nil => simp [placed, Text.nmtoken?]
  | cons c rest =>
      cases hc : isNameChar c with
      | false => simp [placed, Text.nmtoken?, hc]
      | true =>
          have hpos := c.utf8Size_pos
          have hne : Text.size ((c :: rest).takeWhile isNameChar) ≠ 0 := by
            rw [List.takeWhile_cons_of_pos hc, Text.size_cons]
            omega
          rw [if_neg hne, hslice]
          simp only [List.takeWhile_cons_of_pos hc, List.dropWhile_cons_of_pos hc] at hstop ⊢
          simp [placed, Text.nmtoken?, hc, hstop, Except.map]

theorem agrees_quoted : Agrees input (quoted input) Lexer.quoted := by
  intro rest h
  rw [quoted, runAt_bind_of_eq (runAt_left h)]
  cases rest with
  | nil => simp [placed, Lexer.quoted, Lexer.Failure.toError]
  | cons q rest =>
      cases hq : Lexer.isQuote q with
      | false => simp [hq, placed, Lexer.quoted, Lexer.Failure.toError]
      | true =>
          have hone := Lexer.utf8Size_of_isQuote hq
          have hslice : Text.from? (q :: rest) 1 = some rest := by
            simpa [hone] using Text.from?_cons q rest 0
          simp only [List.head?_cons, hq, if_true, runAt_bind_of_eq (runAt_left h), hslice,
            ofOption_some, pure_bind]
          by_cases hmem : q ∈ rest
          · obtain ⟨v, r, rfl, hv⟩ := List.eq_append_cons_of_mem hmem
            have hread : Lexer.quoted (q :: (v ++ q :: r)) = .ok (v, r) :=
              Lexer.quoted_eq_ok_iff.2 ⟨q, hq, hv, rfl⟩
            have hmarks : q :: (v ++ q :: r) = q :: (v ++ [q]) ++ r := by simp
            have hbytes : Text.size (q :: (v ++ [q])) = Text.size v + 2 := by
              rw [Text.size_cons, Text.size_append, Text.size_cons, Text.size_nil, hone]
              omega
            have hstop : offset input r =
                offset input (q :: (v ++ q :: r)) + (Text.size v + 2) := by
              rw [hmarks, ← hbytes]
              exact Text.offset_append (hmarks ▸ h)
            simp [Text.find?_singleton_append hv, Text.upTo?_size, hread, placed,
              hstop, Except.map]
          · have hread : Lexer.quoted (q :: rest) =
                .error ⟨.unterminatedLiteral, q :: rest⟩ := by
              have hdrop : rest.dropWhile (· ≠ q) = [] := by
                simpa using fun c hc => ne_of_mem_of_not_mem hc hmem
              simp only [Lexer.quoted, hq, if_true, hdrop]
            simp [Text.find?_singleton_eq_none hmem, hread, placed, Lexer.Failure.toError]

theorem agrees_systemId : Agrees input (systemId input) ExternalId.readSystem := by
  intro rest h
  refine agrees_requireBlanks.runAt_bind (Lexer.requireBlanks_bounded _) h fun _ r hr => ?_
  exact agrees_quoted.runAt_bind Lexer.quoted_bounded hr fun system r hr => rfl

theorem agrees_publicId (publicAlone : Bool) :
    Agrees input (publicId input publicAlone) (ExternalId.readPublic publicAlone) := by
  intro rest h
  refine agrees_requireBlanks.runAt_bind (Lexer.requireBlanks_bounded _) h fun _ r hr => ?_
  refine agrees_quoted.runAt_bind Lexer.quoted_bounded hr fun written t ht => ?_
  have hnext : Text.skipBlanks t <:+ input := (Text.skipBlanks_suffix t).trans ht
  rw [runAt_bind_of_eq (runAt_get _), runAt_bind_of_eq (agrees_skipBlanks t ht),
    runAt_bind_of_eq (runAt_left hnext)]
  simp only [skipped_pos_iff, ← Bool.and_eq_true]
  cases hboth : (Text.startsBlank t && Lexer.startsQuoted (Text.skipBlanks t)) with
  | true => exact agrees_quoted.runAt_bind Lexer.quoted_bounded hnext fun system r hr => rfl
  | false =>
      have hback : min (offset input t) (Text.size input) = offset input t :=
        Nat.min_eq_left (Text.offset_le input t)
      rw [if_neg Bool.false_ne_true, hback]
      cases publicAlone <;> rfl

theorem agrees_externalId (publicAlone : Bool) :
    Agrees input (externalId input publicAlone) (ExternalId.read publicAlone) := by
  intro rest h
  rw [externalId, runAt_bind_of_eq (agrees_eatKeyword rest h), ExternalId.read]
  cases hsystem : Lexer.keyword? "SYSTEM" rest with
  | some r => exact agrees_systemId r ((Lexer.keyword?_suffix hsystem).trans h)
  | none =>
      change (eatKeyword input "PUBLIC" >>= _).runAt (offset input rest) = _
      rw [runAt_bind_of_eq (agrees_eatKeyword rest h)]
      cases hpublic : Lexer.keyword? "PUBLIC" rest with
      | some r => exact agrees_publicId publicAlone r ((Lexer.keyword?_suffix hpublic).trans h)
      | none => rfl

end OffsetReader

namespace Cursor

variable {c : Cursor} {s : Step}

theorem position_of_inside (hc : c.inside = 0) : c.position = offset c.input c.rest := by
  rw [position, hc, Nat.sub_zero]

theorem performAt_of_agrees {α : Type} {reader : OffsetReader α} {lexer : Lexer α}
    {write : α → Answer} (hagrees : reader.Agrees c.input lexer) (hc : c.inside = 0)
    (hrest : c.rest <:+ c.input) (hreader : s.reader c.input = write <$> reader)
    (hperform : c.perform s = (c.read lexer).map (.ofRead write) id) :
    performAt c.input s c.position = some ((c.perform s).1, (c.perform s).2.position) := by
  rw [performAt, hreader, OffsetReader.runAt_map, position_of_inside hc, hagrees c.rest hrest,
    hperform, read]
  cases lexer c.rest <;> rfl

theorem map_read_elim {α β : Type} {reader : Text → Option β} {missing : α} {value : β → α}
    {behind : β → Text} {write : α → Answer} (hc : c.inside = 0) :
    (c.read fun t => .ok ((reader t).elim (missing, t) fun b => (value b, behind b))).map
      (Answer.ofRead write) id =
      (reader c.rest).elim (write missing, c) fun b =>
        (write (value b), c.moveTo (behind b)) := by
  rw [read]
  cases reader c.rest with
  | none => exact congrArg _ (moveTo_rest hc)
  | some b => rfl

/-- Between two characters a step by byte offsets answers what it answers to the text that is
left, and goes to the same place. -/
theorem performAt_position (hc : c.inside = 0) (hrest : c.rest <:+ c.input) (s : Step) :
    performAt c.input s c.position = some ((c.perform s).1, (c.perform s).2.position) := by
  cases s with
  | skipBlanks => exact performAt_of_agrees OffsetReader.agrees_skipBlanks hc hrest rfl rfl
  | requireBlanks context =>
      exact performAt_of_agrees OffsetReader.agrees_requireBlanks hc hrest rfl rfl
  | eat mark =>
      refine performAt_of_agrees OffsetReader.agrees_eat hc hrest rfl ?_
      rw [map_read_elim hc]
      exact c.perform_eat mark
  | eatKeyword keyword =>
      refine performAt_of_agrees OffsetReader.agrees_eatKeyword hc hrest rfl ?_
      rw [map_read_elim hc]
      exact c.perform_eatKeyword keyword
  | expectChar expected =>
      exact performAt_of_agrees (OffsetReader.agrees_char expected) hc hrest rfl rfl
  | name =>
      refine performAt_of_agrees OffsetReader.agrees_name hc hrest rfl ?_
      rw [map_read_elim hc]
      exact map_read? c Text.name?
  | nmtoken =>
      refine performAt_of_agrees OffsetReader.agrees_nmtoken hc hrest rfl ?_
      rw [map_read_elim hc]
      exact map_read? c Text.nmtoken?
  | quoted => exact performAt_of_agrees OffsetReader.agrees_quoted hc hrest rfl rfl
  | externalId publicAlone =>
      exact performAt_of_agrees (OffsetReader.agrees_externalId publicAlone) hc hrest rfl rfl
  | seek n =>
      rw [perform, position_seek]
      rfl

end Cursor
end Doctype
