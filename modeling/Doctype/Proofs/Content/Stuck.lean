import Doctype.Proofs.Content.Acceptance

/-!
Where the reading of a content model fails. A reader is stuck at a token if something can
complete what is read so far, but nothing that begins with this token; at the end of the tokens
it is stuck if something can complete them (`Stuck`). The failures of the readers are located
where they are stuck (`located_readMember`, `located_readMixed`). For a whole model there are
two exceptions: a model that does not begin with a parenthesis, and the bound zero, which is
only looked at behind the parenthesis (`Spec.offset_of_ofTokens`).
-/

namespace Doctype.Content

/-- What reads a group from tokens and gives the tokens behind it. -/
abbrev Reader := List Token → Except Failure (Particle × List Token)

namespace Reader

def all (read : Reader) (toks : List Token) : Except Failure Particle := do
  let (model, rest) ← read toks
  expectEnd rest
  return model

def Completes (read : Reader) (toks : List Token) : Prop :=
  ∃ p, read toks = .ok (p, [])

/-- Whether there are tokens that are read to their end, with lexemes that can come out of a
text. -/
def IsOpen (read : Reader) : Prop :=
  ∃ more, (∀ l ∈ lexemesOf more, l.Valid) ∧ read.Completes more

def behind (read : Reader) (t : Token) : Reader :=
  fun toks => read (t :: toks)

end Reader

open Reader

/-- `Stuck stop read toks p`: the reader goes wrong at the offset `p`, which is that of a
token, or `stop` if it is at the end of the tokens. -/
inductive Stuck (stop : Nat) : Reader → List Token → Nat → Prop
  | here {read : Reader} {t : Token} {rest : List Token} :
      IsOpen read → (∀ more, ¬Completes read (t :: more)) →
      Stuck stop read (t :: rest) t.offset
  | behind {read : Reader} {t : Token} {rest : List Token} {p : Nat} :
      Stuck stop (read.behind t) rest p → Stuck stop read (t :: rest) p
  | ending {read : Reader} : IsOpen read → Stuck stop read [] stop

/-- Whether a failure to read all tokens is located where the reader is stuck. -/
def Located (stop : Nat) (read : Reader) (toks : List Token) : Prop :=
  ∀ failure, read.all toks = .error failure → ∃ p, failure.offset = some p ∧
    Stuck stop read toks p

variable {bound stop p : Nat} {read read' : Reader} {t : Token} {toks rest : List Token}
  {outer : List OpenGroup}
  {g : OpenGroup} {names : List Text}

/-! ### Places -/

theorem Stuck.split (h : Stuck stop read toks p) :
    (∃ before t after, toks = before ++ t :: after ∧ p = t.offset ∧
      IsOpen (fun more => read (before ++ more)) ∧
      ∀ more, ¬Completes read (before ++ t :: more)) ∨
    IsOpen (fun more => read (toks ++ more)) ∧ p = stop := by
  induction h with
  | @here read t rest hopen hnone => exact .inl ⟨[], t, rest, rfl, rfl, hopen, hnone⟩
  | @behind read t rest p _ ih =>
      rcases ih with ⟨before, t', after, rfl, hp, hopen, hnone⟩ | hend
      · exact .inl ⟨t :: before, t', after, rfl, hp, hopen, hnone⟩
      · exact .inr hend
  | ending hopen => exact .inr ⟨hopen, rfl⟩

/-- Readers that agree where the first token is not to be skipped are stuck at the same places,
if what they complete does not begin with a token that is. -/
theorem Stuck.congr {skip : List Token → Bool}
    (hfirst : ∀ t more more', skip (t :: more) = skip (t :: more'))
    (hskip : ∀ more, Completes read more → skip more = false)
    (heq : ∀ more, skip more = false → read' more = read more) (htoks : skip toks = false)
    (h : Stuck stop read toks p) : Stuck stop read' toks p := by
  have hopen' (hopen : IsOpen read) : IsOpen read' := by
    obtain ⟨more, hvalid, q, hq⟩ := hopen
    exact ⟨more, hvalid, q, (heq more (hskip more ⟨q, hq⟩)).trans hq⟩
  have heq' {t : Token} {rest : List Token} (ht : skip (t :: rest) = false)
      (more : List Token) : read' (t :: more) = read (t :: more) :=
    heq _ ((hfirst t more rest).trans ht)
  cases h with
  | here hopen hnone =>
      refine .here (hopen' hopen) fun more => ?_
      rintro ⟨q, hq⟩
      exact hnone more ⟨q, (heq' htoks more).symm.trans hq⟩
  | behind h =>
      have hbehind : read'.behind _ = read.behind _ := funext (heq' htoks)
      exact .behind (hbehind ▸ h)
  | ending hopen => exact .ending (hopen' hopen)

namespace Located

theorem behind (h : Located stop (read.behind t) rest) : Located stop read (t :: rest) := by
  intro failure hfailure
  obtain ⟨p, hp, hstuck⟩ := h failure hfailure
  exact ⟨p, hp, .behind hstuck⟩

/-- A token that is refused, whatever is behind it. -/
theorem here {fault : Fault} (hopen : IsOpen read)
    (herror : ∀ more, read (t :: more) = .error (fault.at t.offset)) :
    Located stop read (t :: rest) := by
  intro failure hfailure
  unfold all at hfailure
  rw [herror] at hfailure
  cases hfailure
  refine ⟨t.offset, rfl, .here hopen fun more => ?_⟩
  rintro ⟨q, hq⟩
  rw [herror] at hq
  cases hq

theorem ending {fault : Fault} (hopen : IsOpen read)
    (herror : read [] = .error (fault.at stop)) : Located stop read [] := by
  intro failure hfailure
  unfold all at hfailure
  rw [herror] at hfailure
  cases hfailure
  exact ⟨stop, rfl, .ending hopen⟩

theorem done (q : Particle) (toks : List Token) :
    Located stop (fun more => .ok (q, more)) toks := by
  intro failure hfailure
  cases toks with
  | nil => cases hfailure
  | cons t rest =>
      cases hfailure
      refine ⟨t.offset, rfl, .here ⟨[], by simp, q, rfl⟩ fun more => ?_⟩
      rintro ⟨q', hq'⟩
      cases hq'

theorem congr {skip : List Token → Bool}
    (hfirst : ∀ t more more', skip (t :: more) = skip (t :: more'))
    (hskip : ∀ more, Completes read more → skip more = false)
    (heq : ∀ more, skip more = false → read' more = read more) (htoks : skip toks = false)
    (h : Located stop read toks) : Located stop read' toks := by
  intro failure hfailure
  unfold all at hfailure
  rw [heq toks htoks] at hfailure
  obtain ⟨p, hp, hstuck⟩ := h failure hfailure
  exact ⟨p, hp, hstuck.congr hfirst hskip heq htoks⟩

end Located

/-! ### Marks -/

theorem startsMark_cons (t : Token) (more more' : List Token) :
    startsMark (t :: more) = startsMark (t :: more') := by
  obtain ⟨o, l⟩ := t
  cases l <;> rfl

theorem startsMark_eq_true (h : startsMark toks = true) :
    ∃ o m rest, toks = ⟨o, .mark m⟩ :: rest := by
  unfold startsMark at h
  split at h
  · exact ⟨_, _, _, rfl⟩
  · cases h

theorem Located.marked (hskip : ∀ more, Completes read more → startsMark more = false)
    (hnone : ∀ more, startsMark more = false → read' more = read more)
    (hmarked : ∀ o m rest', rest = ⟨o, .mark m⟩ :: rest' → Located stop read' rest)
    (hplain : Located stop read rest) : Located stop read' rest := by
  cases hmark : startsMark rest with
  | true =>
      obtain ⟨o, m, rest', rfl⟩ := startsMark_eq_true hmark
      exact hmarked o m rest' rfl
  | false => exact hplain.congr startsMark_cons hskip hnone hmark

/-! ### Groups -/

theorem startsMark_of_completes_readSeparator
    (h : Completes (readSeparator bound stop outer g) toks) : startsMark toks = false := by
  obtain ⟨q, hq⟩ := h
  rw [← List.append_nil toks]
  obtain ⟨rest, -, ⟨mark, hls, -⟩ | ⟨kind, g', hls, -, -⟩⟩ := readSeparator_cases hq
  · exact startsMark_of_lexemesOf_eq hls fun _ h => by cases h
  · exact startsMark_of_lexemesOf_eq hls (by cases kind <;> exact fun _ h => by cases h)

theorem isOpen_readSeparator (outer : List OpenGroup) (g : OpenGroup) :
    IsOpen (readSeparator bound stop outer g) := by
  induction outer generalizing g with
  | nil => exact ⟨[⟨0, .rightParen⟩], by simp [Lexeme.Valid], g.close none, rfl⟩
  | cons parent outer ih =>
      obtain ⟨more, hvalid, q, hq⟩ := ih (parent.add (g.close none))
      have hmark : startsMark more = false := startsMark_of_completes_readSeparator ⟨q, hq⟩
      have hclose : lexemesOf [⟨0, .rightParen⟩] = .rightParen :: markLexemes none := rfl
      refine ⟨⟨0, .rightParen⟩ :: more, ?_, q, ?_⟩
      · exact List.forall_mem_cons.2 ⟨trivial, hvalid⟩
      · exact (readSeparator_rightParen hclose hmark).trans hq

theorem valid_a : (Lexeme.name "a").Valid :=
  (by decide : Text.isName "a" = true)

theorem isOpen_readMember (outer : List OpenGroup) (g : OpenGroup) :
    IsOpen (readMember bound stop outer g) := by
  obtain ⟨more, hvalid, q, hq⟩ :
      IsOpen (readSeparator bound stop outer (g.add (.name "a" none))) :=
    isOpen_readSeparator outer _
  have hmark : startsMark more = false := startsMark_of_completes_readSeparator ⟨q, hq⟩
  have hname : lexemesOf [⟨0, .name "a"⟩] = .name "a" :: markLexemes none := rfl
  exact ⟨⟨0, .name "a"⟩ :: more, List.forall_mem_cons.2 ⟨valid_a, hvalid⟩, q,
    (readMember_name hname hmark).trans hq⟩

theorem startsMark_of_completes_resume {q : Particle}
    (h : Completes (fun more => resume bound stop q more outer) toks) :
    startsMark toks = false := by
  cases outer with
  | nil =>
      obtain ⟨_, hq⟩ := h
      cases hq
      rfl
  | cons parent outer => exact startsMark_of_completes_readSeparator h

/-- At a separator, failures are located if they are where the member behind it must stand. -/
theorem located_separator (o : Nat) (kind : GroupKind)
    (hmember : ∀ g', Located stop (readMember bound stop outer g') rest) :
    Located stop (readSeparator bound stop outer g) (⟨o, kind.lexeme⟩ :: rest) := by
  cases hsep : g.separate? kind with
  | none =>
      have herror (more : List Token) :
          readSeparator bound stop outer g (⟨o, kind.lexeme⟩ :: more) =
          .error (Fault.separatorsDiffer.at o) := by
        cases kind <;> simp only [GroupKind.lexeme, readSeparator, hsep]
      exact .here (isOpen_readSeparator outer g) herror
  | some g' =>
      have hnext : Reader.behind (readSeparator bound stop outer g) ⟨o, kind.lexeme⟩ =
          readMember bound stop outer g' := funext fun more => readSeparator_separator hsep
      refine .behind ?_
      rw [hnext]
      exact hmember g'

mutual

/-- Where a member must stand, failures are located, by recursion on the tokens. -/
theorem located_readMember (outer : List OpenGroup) (g : OpenGroup) (toks : List Token) :
    Located stop (readMember bound stop outer g) toks := by
  have hopen : IsOpen (readMember bound stop outer g) := isOpen_readMember outer g
  cases toks with
  | nil => exact .ending hopen (by rw [readMember])
  | cons t rest =>
      obtain ⟨o, l⟩ := t
      cases l with
      | name n =>
          have hname : lexemesOf [⟨o, .name n⟩] = .name n :: markLexemes none := rfl
          refine .behind (.marked (fun more => startsMark_of_completes_readSeparator)
            (fun more hmark => readMember_name hname hmark) ?_
            (located_readSeparator outer (g.add (.name n none)) rest))
          rintro o' m rest' rfl
          exact .behind (located_readSeparator outer (g.add (.name n (some m))) rest')
      | leftParen =>
          by_cases hroom : outer.length + 2 ≤ bound
          · have hgroup : Reader.behind (readMember bound stop outer g) ⟨o, .leftParen⟩ =
                readMember bound stop (g :: outer) .start :=
                  funext fun more => readMember_leftParen hroom
            refine .behind ?_
            rw [hgroup]
            exact located_readMember (g :: outer) .start rest
          · exact .here hopen fun more => by rw [readMember, if_neg hroom]
      | pcdata => exact .here hopen fun more => by rw [readMember]
      | rightParen | bar | comma | mark => exact .here hopen fun more => rfl
termination_by toks.length

/-- Behind a member, failures are located, too. -/
theorem located_readSeparator (outer : List OpenGroup) (g : OpenGroup) (toks : List Token) :
    Located stop (readSeparator bound stop outer g) toks := by
  have hopen : IsOpen (readSeparator bound stop outer g) := isOpen_readSeparator outer g
  cases toks with
  | nil => exact .ending hopen (by rw [readSeparator])
  | cons t rest =>
      obtain ⟨o, l⟩ := t
      cases l with
      | rightParen =>
          have hclose : lexemesOf [⟨o, .rightParen⟩] = .rightParen :: markLexemes none := rfl
          refine .behind (.marked (fun more => startsMark_of_completes_resume)
            (fun more hmark => readSeparator_rightParen hclose hmark) ?_ ?_)
          · rintro o' m rest' rfl
            cases outer with
            | nil => exact .behind (.done (g.close (some m)) rest')
            | cons parent outer =>
                exact .behind (located_readSeparator outer
                  (parent.add (g.close (some m))) rest')
          · cases outer with
            | nil => exact .done (g.close none) rest
            | cons parent outer =>
                exact located_readSeparator outer (parent.add (g.close none)) rest
      | comma => exact located_separator o .sequence fun g' => located_readMember outer g' rest
      | bar => exact located_separator o .choice fun g' => located_readMember outer g' rest
      | leftParen | name | pcdata | mark => exact .here hopen fun more => rfl
termination_by toks.length

end

/-! ### Mixed content -/

theorem startsMark_of_completes_readMixed (h : Completes (readMixed stop names) toks) :
    startsMark toks = false := by
  obtain ⟨q, hq⟩ := h
  obtain ⟨ns, mark, -, hls, -⟩ := readMixed_sound hq
  rw [← List.append_nil toks]
  cases ns with
  | nil => exact startsMark_of_lexemesOf_eq hls fun _ h => by cases h
  | cons n ns => exact startsMark_of_lexemesOf_eq hls fun _ h => by cases h

def mixedEnd : List Token :=
  [⟨0, .rightParen⟩, ⟨0, .mark .zeroOrMore⟩]

theorem valid_mixedEnd : ∀ l ∈ lexemesOf mixedEnd, l.Valid := by
  simp [mixedEnd, Lexeme.Valid]

theorem closeMixed_nil (h : startsMark toks = false) :
    closeMixed stop [] toks = .ok (Grammar.mixedModel [] none, toks) := by
  cases toks with
  | nil => rfl
  | cons t rest =>
      obtain ⟨o, l⟩ := t
      cases l with
      | mark m => cases h
      | _ => rfl

theorem closeMixed_cons (n : Text) (names : List Text) (h : startsMark (t :: rest) = false) :
    closeMixed stop (n :: names) (t :: rest) =
      .error (Fault.mixedNotRepeated.at t.offset) := by
  obtain ⟨o, l⟩ := t
  cases l with
  | mark m => cases h
  | _ => rfl

theorem located_closeMixed (names : List Text) (toks : List Token) :
    Located stop (closeMixed stop names) toks := by
  have hopen : IsOpen (closeMixed stop names) :=
    ⟨[⟨0, .mark .zeroOrMore⟩], by simp [Lexeme.Valid], _, rfl⟩
  cases hmark : startsMark toks with
  | true =>
      obtain ⟨o, m, rest, rfl⟩ := startsMark_eq_true hmark
      cases m with
      | zeroOrMore => exact .behind (.done _ rest)
      | optional | oneOrMore => exact .here hopen fun more => rfl
  | false =>
      cases names with
      | nil =>
          refine (Located.done (Grammar.mixedModel [] none) toks).congr startsMark_cons ?_
            (fun more => closeMixed_nil) hmark
          rintro more ⟨q, hq⟩
          cases hq
          rfl
      | cons n names =>
          cases toks with
          | nil => exact .ending hopen rfl
          | cons t rest =>
              exact .here hopen fun more =>
                closeMixed_cons n names ((startsMark_cons t more rest).trans hmark)

theorem readMixed_name {o o' : Nat} {n : Text} {names : List Text} {rest : List Token}
    (hmark : startsMark rest = false) :
    readMixed stop names (⟨o, .bar⟩ :: ⟨o', .name n⟩ :: rest) =
      readMixed stop (n :: names) rest := by
  rw [readMixed]
  rintro o'' m rest' rfl
  cases hmark

theorem located_readMixed (names : List Text) (toks : List Token) :
    Located stop (readMixed stop names) toks := by
  have hopen : IsOpen (readMixed stop names) := ⟨mixedEnd, valid_mixedEnd, _, rfl⟩
  cases toks with
  | nil => exact .ending hopen rfl
  | cons t rest =>
      obtain ⟨o, l⟩ := t
      cases l with
      | rightParen => exact .behind (located_closeMixed names rest)
      | bar =>
          -- behind a bar there must be a name without a mark
          have hname : IsOpen (Reader.behind (readMixed stop names) ⟨o, .bar⟩) :=
            ⟨⟨0, .name "a"⟩ :: mixedEnd,
              List.forall_mem_cons.2 ⟨valid_a, valid_mixedEnd⟩, _, rfl⟩
          refine .behind ?_
          cases rest with
          | nil => exact .ending hname rfl
          | cons t rest =>
              obtain ⟨o', l⟩ := t
              cases l with
              | name n =>
                  refine .behind (.marked (fun more => startsMark_of_completes_readMixed)
                    (fun more => readMixed_name)
                    ?_ (located_readMixed (n :: names) rest))
                  rintro o'' m rest' rfl
                  exact .here ⟨mixedEnd, valid_mixedEnd, _, rfl⟩ fun more => rfl
              | leftParen | rightParen | bar | comma | mark | pcdata =>
                  exact .here hname fun more => rfl
      | comma | leftParen | name | pcdata | mark => exact .here hopen fun more => rfl
termination_by toks.length

/-! ### Models -/

def readModel (bound stop : Nat) : Reader
  | ⟨_, .leftParen⟩ :: ⟨_, .pcdata⟩ :: rest => readMixed stop [] rest
  | ⟨offset, .leftParen⟩ :: rest =>
    if 1 ≤ bound then readMember bound stop [] .start rest
    else .error ((Fault.tooDeep bound).at offset)
  | _ => .error (Fault.notAGroup.at 0)

def startsPcdata : List Token → Bool
  | ⟨_, .pcdata⟩ :: _ => true
  | _ => false

theorem startsPcdata_cons (t : Token) (more more' : List Token) :
    startsPcdata (t :: more) = startsPcdata (t :: more') := by
  obtain ⟨o, l⟩ := t
  cases l <;> rfl

theorem startsPcdata_eq_true (h : startsPcdata toks = true) :
    ∃ o rest, toks = ⟨o, .pcdata⟩ :: rest := by
  unfold startsPcdata at h
  split at h
  · exact ⟨_, _, rfl⟩
  · cases h

theorem startsPcdata_of_completes_readMember
    (h : Completes (readMember bound stop outer g) toks) : startsPcdata toks = false := by
  obtain ⟨q, hq⟩ := h
  cases hpcdata : startsPcdata toks with
  | false => rfl
  | true =>
      obtain ⟨o, rest, rfl⟩ := startsPcdata_eq_true hpcdata
      rw [readMember] at hq
      cases hq

theorem readModel_leftParen {o : Nat} (h : startsPcdata rest = false) :
    readModel bound stop (⟨o, .leftParen⟩ :: rest) =
      if 1 ≤ bound then readMember bound stop [] .start rest
        else .error ((Fault.tooDeep bound).at o) := by
  rw [readModel]
  rintro o' rest' rfl
  cases h

theorem readModel_of_ne (h : ∀ o rest, toks ≠ ⟨o, .leftParen⟩ :: rest) :
    readModel bound stop toks = .error (Fault.notAGroup.at 0) := by
  unfold readModel
  split
  · exact absurd rfl (h _ _)
  · exact absurd rfl (h _ _)
  · rfl

theorem startsPcdata_eq_false (h : ∀ o rest', rest = ⟨o, .pcdata⟩ :: rest' → False) :
    startsPcdata rest = false := by
  cases hpcdata : startsPcdata rest with
  | false => rfl
  | true =>
      obtain ⟨o, rest', hrest⟩ := startsPcdata_eq_true hpcdata
      exact (h o rest' hrest).elim

theorem model_cases (toks : List Token) :
    (∃ o o' rest, toks = ⟨o, .leftParen⟩ :: ⟨o', .pcdata⟩ :: rest) ∨
      (∃ o rest, toks = ⟨o, .leftParen⟩ :: rest ∧ startsPcdata rest = false) ∨
      ∀ o rest, toks ≠ ⟨o, .leftParen⟩ :: rest := by
  by_cases hgroup : ∃ o rest, toks = ⟨o, .leftParen⟩ :: rest
  · obtain ⟨o, rest, rfl⟩ := hgroup
    cases hpcdata : startsPcdata rest with
    | true =>
        obtain ⟨o', rest', rfl⟩ := startsPcdata_eq_true hpcdata
        exact .inl ⟨o, o', rest', rfl⟩
    | false => exact .inr (.inl ⟨o, rest, rfl, hpcdata⟩)
  · exact .inr (.inr fun o rest htoks => hgroup ⟨o, rest, htoks⟩)

/-- The failures of a model are located, unless it does not begin with a parenthesis or the
bound is zero. -/
theorem located_readModel {o : Nat} (h : 1 ≤ bound ∨ startsPcdata rest = true) :
    Located stop (readModel bound stop) (⟨o, .leftParen⟩ :: rest) := by
  refine .behind ?_
  cases hpcdata : startsPcdata rest with
  | true =>
      obtain ⟨o', rest', rfl⟩ := startsPcdata_eq_true hpcdata
      exact .behind (located_readMixed [] rest')
  | false =>
      have hbound : 1 ≤ bound := h.resolve_right (by simp [hpcdata])
      have hmember : Located stop (readMember bound stop [] .start) rest :=
        located_readMember [] .start rest
      refine hmember.congr startsPcdata_cons (fun more => startsPcdata_of_completes_readMember)
        (fun more hmore => ?_) hpcdata
      exact (readModel_leftParen hmore).trans (if_pos hbound)

theorem all_eq_ok_iff {q : Particle} : read.all toks = .ok q ↔ read toks = .ok (q, []) := by
  unfold all
  simp only [bind_eq_ok_iff, Prod.exists]
  constructor
  · rintro ⟨_, rest, hread, ⟨⟩, hend, hq⟩
    obtain rfl := expectEnd_eq_ok_iff.1 hend
    cases hq
    exact hread
  · intro h
    exact ⟨q, [], h, (), rfl, rfl⟩

/-- A specification is made of what is read from all tokens. -/
theorem Spec.exists_ofTokens_eq (bound : Nat) (toks : List Token) :
    ∃ make : Particle → Spec,
      Spec.ofTokens bound toks = Reader.all (readModel bound (stopOffset toks)) toks >>=
        fun q => .ok (make q) := by
  unfold Spec.ofTokens all
  dsimp only
  split
  · refine ⟨.mixed, ?_⟩
    simp only [readModel, bind_assoc]
    rfl
  · next hplain =>
    refine ⟨.children, ?_⟩
    rw [readModel_leftParen (startsPcdata_eq_false hplain)]
    split
    · simp only [bind_assoc]
      rfl
    · rfl
  · next hne =>
    refine ⟨.children, ?_⟩
    rw [readModel_of_ne (fun o rest h => hne o rest h)]
    rfl

/-- Where the tokens are thought to end does not matter for those that are read to their
end. -/
theorem completes_readModel_congr (bound stop stop' : Nat) (toks : List Token) :
    Completes (readModel bound stop) toks ↔ Completes (readModel bound stop') toks := by
  rcases model_cases toks with ⟨o, o', rest, rfl⟩ | ⟨o, rest, rfl, hpcdata⟩ | hne
  · have hmixed (stop : Nat) (q : Particle) : readMixed stop [] rest = .ok (q, []) ↔
        Grammar.Mixed (lexemesOf (⟨o, .leftParen⟩ :: ⟨o', .pcdata⟩ :: rest)) q :=
          readMixed_eq_ok_iff
    exact exists_congr fun q => (hmixed stop q).trans (hmixed stop' q).symm
  · unfold Completes
    rw [readModel_leftParen hpcdata, readModel_leftParen hpcdata]
    by_cases hbound : 1 ≤ bound
    · rw [if_pos hbound, if_pos hbound]
      have hgroup (stop : Nat) (q : Particle) : readMember bound stop [] .start rest =
        .ok (q, []) ↔
          Grammar.Group (lexemesOf (⟨o, .leftParen⟩ :: rest)) q ∧ q.nesting ≤ bound :=
            readMember_start_eq_ok_iff hbound
      exact exists_congr fun q => (hgroup stop q).trans (hgroup stop' q).symm
    · rw [if_neg hbound, if_neg hbound]
  · unfold Completes
    rw [readModel_of_ne hne, readModel_of_ne hne]

theorem completes_readModel_iff :
    Completes (readModel bound stop) toks ↔
      ∃ spec, Grammar.Model bound (lexemesOf toks) spec := by
  obtain ⟨make, hmake⟩ := Spec.exists_ofTokens_eq bound toks
  rw [completes_readModel_congr bound stop (stopOffset toks)]
  simp only [← Spec.ofTokens_eq_ok_iff, hmake, bind_eq_ok_iff, all_eq_ok_iff, Completes]
  constructor
  · rintro ⟨q, hq⟩
    exact ⟨make q, q, hq, rfl⟩
  · rintro ⟨_, q, hq, -⟩
    exact ⟨q, hq⟩

/-! ### The grammar -/

/-- Whether lexemes begin a model, with others behind them that can come out of a text. -/
def Grammar.Begins (bound : Nat) (ls : List Lexeme) : Prop :=
  ∃ more spec, (∀ l ∈ more, l.Valid) ∧ Grammar.Model bound (ls ++ more) spec

theorem begins_of_isOpen {before : List Token}
    (h : IsOpen fun more => readModel bound stop (before ++ more)) :
    Grammar.Begins bound (lexemesOf before) := by
  obtain ⟨more, hvalid, hmore⟩ := h
  obtain ⟨spec, hspec⟩ := completes_readModel_iff.1 hmore
  refine ⟨lexemesOf more, spec, hvalid, ?_⟩
  rwa [lexemesOf, List.map_append] at hspec

theorem not_begins_of_not_completes {before : List Token}
    (h : ∀ more, ¬Completes (readModel bound stop) (before ++ t :: more)) :
    ¬Grammar.Begins bound (lexemesOf before ++ [t.lexeme]) := by
  rintro ⟨more, spec, -, hspec⟩
  -- any offsets will do for what is behind the token
  refine h (more.map (⟨0, ·⟩)) (completes_readModel_iff.2 ⟨spec, ?_⟩)
  simpa [lexemesOf, Function.comp_def] using hspec

/-- Where the failure of a model is located: at a token with which the lexemes before it begin
no model, or at the end of lexemes that begin one. With the bound zero it may be the
parenthesis of a group. A failure of what does not begin with a parenthesis is always at
zero. -/
theorem Spec.offset_of_ofTokens {failure : Failure}
    (h : Spec.ofTokens bound toks = .error failure) :
    ∃ p, failure.offset = some p ∧
      ((∃ before t after, toks = before ++ t :: after ∧ p = t.offset ∧
        Grammar.Begins bound (lexemesOf before) ∧
          ¬Grammar.Begins bound (lexemesOf before ++ [t.lexeme])) ∨
        Grammar.Begins bound (lexemesOf toks) ∧ p = stopOffset toks ∨
        (∃ o rest, toks = ⟨o, .leftParen⟩ :: rest ∧ p = o ∧ bound = 0 ∧
          startsPcdata rest = false) ∨
        (∀ o rest, toks ≠ ⟨o, .leftParen⟩ :: rest) ∧ p = 0 ∧ failure.fault = .notAGroup) := by
  obtain ⟨make, hmake⟩ := Spec.exists_ofTokens_eq bound toks
  have hall : Reader.all (readModel bound (stopOffset toks)) toks = .error failure := by
    rw [hmake] at h
    rcases bind_eq_error_iff.1 h with h | ⟨q, -, h⟩
    · exact h
    · cases h
  by_cases hgroup : ∃ o rest, toks = ⟨o, .leftParen⟩ :: rest
  · obtain ⟨o, rest, rfl⟩ := hgroup
    by_cases hbound : 1 ≤ bound ∨ startsPcdata rest = true
    · obtain ⟨p, hp, hstuck⟩ := located_readModel hbound failure hall
      refine ⟨p, hp, ?_⟩
      rcases hstuck.split with ⟨before, t, after, htoks, hoffset, hopen, hnone⟩ | ⟨hopen, hend⟩
      · exact .inl ⟨before, t, after, htoks, hoffset, begins_of_isOpen hopen,
          not_begins_of_not_completes hnone⟩
      · exact .inr (.inl ⟨begins_of_isOpen hopen, hend⟩)
    · have hzero : ¬1 ≤ bound := fun h => hbound (.inl h)
      have hpcdata : startsPcdata rest = false := Bool.eq_false_iff.2 fun h => hbound (.inr h)
      unfold all at hall
      rw [readModel_leftParen hpcdata, if_neg hzero] at hall
      cases hall
      exact ⟨o, rfl, .inr (.inr (.inl ⟨o, rest, rfl, rfl, by omega, hpcdata⟩))⟩
  · have hne : ∀ o rest, toks ≠ ⟨o, .leftParen⟩ :: rest :=
      fun o rest htoks => hgroup ⟨o, rest, htoks⟩
    unfold all at hall
    rw [readModel_of_ne hne] at hall
    cases hall
    exact ⟨0, rfl, .inr (.inr (.inr ⟨hne, rfl, rfl⟩))⟩

end Doctype.Content
