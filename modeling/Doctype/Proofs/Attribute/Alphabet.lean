import Doctype.Proofs.Attribute.Expansion
import Doctype.Proofs.Declaration.Alphabet

/-!
Default values over an alphabet. The normal form of a value has characters of the value and of
the replacement texts that it refers to, those that character references in these denote, and
spaces (`over_normalize`).
-/

namespace Doctype.Attribute.Value

variable {A : Char → Prop} {g : Graph} {limits : Limits} {t raw : Text}

/-- `ReadOver A t`: the characters of the text and those that its references denote are in the
alphabet. -/
def ReadOver (A : Char → Prop) (t : Text) : Prop :=
  Text.Over A t ∧ ∀ c, Reference.Denotes t c → A c

theorem isLegal_of_predefined? {name : Text} {c : Char} (h : predefined? name = some c) :
    isLegal c = true := by
  unfold predefined? at h
  split_ifs at h <;> cases h <;> decide

/-- What a piece of such a text writes. -/
theorem over_written (hA : Covers A) (ht : ReadOver A t) {piece : Piece}
    (hpiece : piece ∈ pieces t) : Text.Over A piece.written := by
  rcases exists_of_mem_pieces hpiece
    with ⟨c, hc, rfl⟩ | ⟨before, body, after, heq, hbody, hpiece⟩
  · have hwritten : A (if isBlank c then ' ' else c) := by
      split
      · exact hA.char (by decide)
      · exact ht.1 c hc
    exact Text.over_nil.cons hwritten
  · -- the body is part of the text, and so is the reference as it is written
    have hover := ht.1
    rw [heq, Text.over_append, Text.over_cons, Text.over_append] at hover
    have hreference : Text.Over A (writeReference body) :=
      .append (hover.2.2.1.cons hover.2.1) (hA.text (by decide))
    rcases Piece.ofBody?_cases hpiece with
      ⟨-, ⟨c, hdecode, rfl⟩ | ⟨-, rfl⟩⟩ | ⟨-, -, ⟨c, hpredefined, rfl⟩ | ⟨-, rfl⟩⟩
    · exact Text.over_nil.cons (ht.2 c ⟨before, body, after, heq, hbody, hdecode⟩)
    · exact hreference
    · exact Text.over_nil.cons (hA.char (isLegal_of_predefined? hpredefined))
    · exact hreference

theorem over_collapse (hA : Covers A) (ht : Text.Over A t) : Text.Over A (collapse t) := by
  refine .join (hA.text (by decide)) fun w hw => ?_
  obtain ⟨hmem, hne⟩ := List.mem_filter.1 hw
  exact ht.of_isRun (Text.isRun_of_mem_splitBy (by simpa using hne) hmem)

/-- The normal form of a value, where replacement texts are read. -/
theorem over_normalize (hA : Covers A)
    (hg : ∀ {n u e}, g.entity? .general n = some e → e.definition = .literal u → ReadOver A u)
    (hraw : ReadOver A raw) {isTokenized : Bool} {v : Normalized}
    (h : normalize g limits raw isTokenized = .ok v) : Text.Over A v.value := by
  have hkept : Kept g (ReadOver A) fun p => Text.Over A p.out.toText := {
    replacement := hg
    write := fun ht hpiece hp => by
      rw [Progress.write, Buffer.toText_append]
      exact hp.append (over_written hA ht hpiece)
    meet := fun _ _ hp => hp
    miss := fun _ _ hp => hp
    within := fun _ _ hp => hp }
  obtain ⟨p, hrun, h⟩ := Content.bind_eq_ok_iff.1 h
  cases h
  have hout : Text.Over A p.out.toText := hkept.expand hraw Text.over_nil hrun
  dsimp only
  split
  · exact over_collapse hA hout
  · exact hout

end Doctype.Attribute.Value
