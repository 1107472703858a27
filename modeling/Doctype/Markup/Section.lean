import Doctype.Markup.Item

/-!
Conditional sections. The keyword decides whether the text of a section is read or skipped; a
skipped section ends where its brackets balance, whatever else is in it.
-/

namespace Doctype.Markup

inductive SectionKind
  | included
  | ignored
  deriving DecidableEq

def SectionKind.ofKeyword? (keyword : Text) : Option SectionKind :=
  if keyword = "INCLUDE" then some included
  else if keyword = "IGNORE" then some ignored
  else none

/-- What is left behind the end of a skipped section in which `depth` further sections are
open. -/
def skipIgnored (depth : Nat) : Text → Option Text
  | ']' :: ']' :: '>' :: t =>
    match depth with
    | 0 => some t
    | depth + 1 => skipIgnored depth t
  | '<' :: '!' :: '[' :: t => skipIgnored (depth + 1) t
  | _ :: t => skipIgnored depth t
  | [] => none

theorem skipIgnored_suffix {depth : Nat} {t rest : Text}
    (h : skipIgnored depth t = some rest) : rest <:+ t := by
  fun_induction skipIgnored depth t with
  | case1 t =>
    cases h
    exact ⟨"]]>".toList, rfl⟩
  | case2 t depth ih =>
    obtain ⟨u, hu⟩ := ih h
    exact ⟨"]]>".toList ++ u, by rw [List.append_assoc, hu]; rfl⟩
  | case3 depth t ih =>
    obtain ⟨u, hu⟩ := ih h
    exact ⟨"<![".toList ++ u, by rw [List.append_assoc, hu]; rfl⟩
  | case4 depth c t _ _ ih => exact (ih h).trans (List.suffix_cons c t)
  | case5 => cases h

/-- Opens the section whose keyword was read: `item` is what was left where the section begins,
`start` where its keyword does, and `rest` behind the keyword. A section that is included
leaves its text and all that follows, an ignored one what follows its end. -/
def openSection (item start : Text) (keyword rest : Text) :
    Except Failure (SectionKind × Text) :=
  match Text.skipBlanks rest with
  | '[' :: body =>
    match SectionKind.ofKeyword? keyword with
    | some .included => .ok (.included, body)
    | some .ignored =>
      match skipIgnored 0 body with
      | some after => .ok (.ignored, after)
      | none => .error ⟨.unterminatedSection, item⟩
    | none => .error ⟨.unknownSection keyword, start⟩
  | left => .error ⟨.sectionBracketMissing, left⟩

theorem openSection_length {item start keyword rest left : Text} {kind : SectionKind}
    (h : openSection item start keyword rest = .ok (kind, left)) :
    left.length ≤ rest.length := by
  have hs := (Text.skipBlanks_suffix rest).length_le
  unfold openSection at h
  split at h
  · next body hb =>
    rw [hb, List.length_cons] at hs
    split at h
    · cases h; omega
    · split at h
      · next hi =>
        cases h
        have := (skipIgnored_suffix hi).length_le
        omega
      · cases h
    · cases h
  · cases h

end Doctype.Markup
