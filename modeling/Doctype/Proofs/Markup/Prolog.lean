import Doctype.Proofs.Declaration.Definition
import Doctype.Proofs.Text.Declaration
import Doctype.Proofs.Text.Mark
import Doctype.Source

/-!
The prolog of a document, as it is written and as it is read. What may stand around the
document type declaration is said apart from any way of reading it (`Misc`), and it is passed
over whatever follows (`skipMisc_append`); the declaration up to its internal subset is read as
its grammar writes it (`readDoctype_append`).
-/

namespace Doctype

open Attribute.Grammar (Gap Space)
open Attribute (startsNameChar_space startsBlank_space)
open Text (startsBlank skipBlanks skipBlanks_append skipBlanks_skipBlanks breakAt? dropPrefix?)

namespace Source

variable {m t u s b root e : Text} {id : Option ExternalId}

/-! ### Around the declaration -/

/-- `(S | Comment | PI)*`, where comments and processing instructions end at the first mark
that ends them. -/
inductive Misc : Text → Prop
  | nil : Misc []
  | blank {c : Char} {m : Text} : isBlank c = true → Misc m → Misc (c :: m)
  | comment {u m : Text} :
      ¬"-->".toList <:+: u → Misc m → Misc ("<!--".toList ++ (u ++ ("-->".toList ++ m)))
  | instruction {u m : Text} :
      ¬"?>".toList <:+: u → Misc m → Misc ("<?".toList ++ (u ++ ("?>".toList ++ m)))

/-- The text begins with what is no blank, no comment and no processing instruction. -/
structure Significant (t : Text) : Prop where
  startsBlank : startsBlank t = false
  comment : dropPrefix? "<!--" t = none
  instruction : dropPrefix? "<?" t = none

theorem skipMisc_congr (h : skipBlanks t = skipBlanks u) : skipMisc t = skipMisc u := by
  rw [skipMisc, skipMisc, h]

theorem skipMisc_comment (hu : ¬"-->".toList <:+: u) (t : Text) :
    skipMisc ("<!--".toList ++ (u ++ ("-->".toList ++ t))) = skipMisc t := by
  have hbreak : breakAt? "-->" (u ++ ("-->".toList ++ t)) = some (u, t) :=
    Text.breakAt?_append (m := ['-', '-']) (by decide) hu t
  have hskip : skipBlanks ("<!--".toList ++ (u ++ ("-->".toList ++ t))) =
      '<' :: '!' :: '-' :: '-' :: (u ++ ("-->".toList ++ t)) := rfl
  rw [skipMisc]
  split
  · next v hv =>
    cases hskip.symm.trans hv
    split
    · next hfound =>
      cases hbreak.symm.trans hfound
      rfl
    · next hnone => cases hbreak.symm.trans hnone
  · next hv => cases hskip.symm.trans hv
  · next hcomment _ => exact absurd hskip (hcomment _)

theorem skipMisc_instruction (hu : ¬"?>".toList <:+: u) (t : Text) :
    skipMisc ("<?".toList ++ (u ++ ("?>".toList ++ t))) = skipMisc t := by
  have hbreak : breakAt? "?>" (u ++ ("?>".toList ++ t)) = some (u, t) :=
    Text.breakAt?_append (m := ['?']) (by decide) hu t
  have hskip : skipBlanks ("<?".toList ++ (u ++ ("?>".toList ++ t))) =
    '<' :: '?' :: (u ++ ("?>".toList ++ t)) := rfl
  rw [skipMisc]
  split
  · next hv => cases hskip.symm.trans hv
  · next v hv =>
    cases hskip.symm.trans hv
    split
    · next hfound =>
      cases hbreak.symm.trans hfound
      rfl
    · next hnone => cases hbreak.symm.trans hnone
  · next hinstruction => exact absurd hskip (hinstruction _)

theorem skipMisc_append (hm : Misc m) (t : Text) : skipMisc (m ++ t) = skipMisc t := by
  induction hm with
  | nil => rfl
  | @blank c m hc _ ih =>
      have hskip : skipBlanks (c :: m ++ t) = skipBlanks (m ++ t) :=
        List.dropWhile_cons_of_pos hc
      rw [skipMisc_congr hskip, ih]
  | comment hu _ ih =>
      rw [List.append_assoc, List.append_assoc, List.append_assoc, skipMisc_comment hu, ih]
  | instruction hu _ ih =>
      rw [List.append_assoc, List.append_assoc, List.append_assoc, skipMisc_instruction hu, ih]

theorem skipMisc_significant (h : Significant t) : skipMisc t = .ok t := by
  have hskip : skipBlanks t = t := skipBlanks_append (a := []) (by simp) h.startsBlank
  rw [skipMisc]
  split
  · next u hu =>
    have hcomment := h.comment
    rw [← hskip, hu] at hcomment
    cases hcomment
  · next u hu =>
    have hinstruction := h.instruction
    rw [← hskip, hu] at hinstruction
    cases hinstruction
  · rw [hskip]

theorem skipMisc_misc (hm : Misc m) : skipMisc m = .ok [] := by
  rw [← List.append_nil m, skipMisc_append hm]
  exact skipMisc_significant ⟨rfl, rfl, rfl⟩

/-! ### The declaration -/

/-- `(S ExternalID)?` -/
inductive ExternalPart : Text → Option ExternalId → Prop
  | absent : ExternalPart [] none
  | present {s u : Text} {id : ExternalId} :
      Space s → ExternalId.Written false u id → ExternalPart (s ++ u) (some id)

/-- `('[' i ']' S?)?`, where the subset `i` may be any text. -/
inductive InternalPart : Text → Text → Prop
  | absent : InternalPart [] []
  | present {i s : Text} : Gap s → InternalPart ('[' :: (i ++ ']' :: s)) i

/-- `Misc '<!DOCTYPE' S Name (S ExternalID)? S? ('[' i ']' S?)? '>'` -/
inductive Prolog : Text → Option ExternalId → Text → Prop
  | mk {m s root e b p i : Text} {id : Option ExternalId} :
      Misc m → Space s → Text.isName root = true →
      ExternalPart e id → Gap b → InternalPart p i →
      Prolog (m ++ ("<!DOCTYPE".toList ++ (s ++ (root ++ (e ++ (b ++ (p ++ ['>']))))))) id i

/-- What is behind the name of the document element and its external identifier: the internal
subset, or the end of the declaration. -/
structure Delimited (t : Text) : Prop where
  startsBlank : startsBlank t = false
  startsNameChar : Text.startsNameChar t = false
  startsQuoted : Lexer.startsQuoted t = false
  system : dropPrefix? "SYSTEM" t = none
  publicOnly : dropPrefix? "PUBLIC" t = none

theorem InternalPart.delimited {p i : Text} (h : InternalPart p i) (rest : Text) :
    Delimited (p ++ '>' :: rest) := by
  cases h with
  | absent => exact ⟨rfl, by show isNameChar '>' = false; decide, rfl, rfl, rfl⟩
  | present _ => exact ⟨rfl, by show isNameChar '[' = false; decide, rfl, rfl, rfl⟩

theorem startsNameChar_gap {r : Text} (hb : Gap b) (hr : Text.startsNameChar r = false) :
    Text.startsNameChar (b ++ r) = false := by
  cases b with
  | nil => exact hr
  | cons c b => exact startsNameChar_space ⟨List.cons_ne_nil c b, hb⟩ r

theorem ExternalPart.startsNameChar {r : Text} (he : ExternalPart e id)
    (hr : Text.startsNameChar r = false) : Text.startsNameChar (e ++ r) = false := by
  cases he with
  | absent => exact hr
  | present hs _ =>
      rw [List.append_assoc]
      exact startsNameChar_space hs _

theorem readExternalId_append (he : ExternalPart e id) (hb : Gap b) (ht : Delimited t) :
    readExternalId (e ++ (b ++ t)) = .ok (id, t) := by
  have hskip : skipBlanks (b ++ t) = t := skipBlanks_append hb ht.startsBlank
  cases he with
  | absent =>
      simp only [readExternalId, List.nil_append, hskip, ht.system, ht.publicOnly]
      simp
  | @present s u id hs hu =>
      have hnext : skipBlanks (s ++ (u ++ (b ++ t))) = u ++ (b ++ t) :=
        skipBlanks_append hs.2 (hu.startsBlank _)
      have hread : ExternalId.read false (u ++ (b ++ t)) = .ok (id, b ++ t) :=
        ExternalId.read_append hu (by rw [hskip]; exact ht.startsQuoted)
      have hkeyword : (dropPrefix? "SYSTEM" (u ++ (b ++ t))).isSome ∨
          (dropPrefix? "PUBLIC" (u ++ (b ++ t))).isSome := by
        cases hu with
        | system _ _ => exact .inl rfl
        | both _ _ _ _ => exact .inr rfl
      simp only [readExternalId, List.append_assoc, hnext, startsBlank_space hs, hkeyword,
        hread, hskip, and_self, if_true]

/-- A document type declaration is read up to its internal subset. -/
theorem readDoctype_append (hm : Misc m) (hs : Space s) (hroot : Text.isName root = true)
    (he : ExternalPart e id) (hb : Gap b) (ht : Delimited t) :
    readDoctype (m ++ ("<!DOCTYPE".toList ++ (s ++ (root ++ (e ++ (b ++ t)))))) =
      .ok (id, t) := by
  have hstart (r : Text) : skipMisc (m ++ ("<!DOCTYPE".toList ++ r)) =
      .ok ("<!DOCTYPE".toList ++ r) := by
    rw [skipMisc_append hm]
    exact skipMisc_significant ⟨rfl, rfl, rfl⟩
  have hends : Text.startsNameChar (e ++ (b ++ t)) = false :=
    he.startsNameChar (startsNameChar_gap hb ht.startsNameChar)
  have hname : Text.startsBlank (root ++ (e ++ (b ++ t))) = false := by
    cases root with
    | nil => cases hroot
    | cons c root => exact isBlank_eq_false_of_mem_name hroot List.mem_cons_self
  simp only [readDoctype, hstart, Text.dropPrefix?_append, startsBlank_space hs,
    skipBlanks_append hs.2 hname,
    Text.name?_append hroot hends, readExternalId_append he hb ht, bind, Except.bind,
      Bool.not_true, Bool.false_eq_true, if_false]

end Source
end Doctype
