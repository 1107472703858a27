import Doctype.Text.Utf8

/-!
What can be read back from a written form. An encoding determines a view of what it encodes if
the view can be told from the front of any list that begins with an encoding, together with
what is left (`Determines`). A written item followed by something that cannot prolong it is one
such case (`append_inj_of_class`). Bytes determine a text (`Text.toBytes_injective`) and digits
a number (`Text.decimal_injective`).
-/

namespace Doctype

/-- What the encoding `f` writes at the front of a list determines what `view` shows of the
value, and what is left. -/
def Determines {α β γ : Type} (f : α → List β) (view : α → γ) : Prop :=
  ∀ a b s t, f a ++ s = f b ++ t → view a = view b ∧ s = t

namespace Determines

variable {α β γ : Type} {f : α → List β} {view : α → γ}

/-- Items one behind the other, up to a mark with which no item begins, determine the items. -/
theorem flatMap_append (h : Determines f view) {stop : β}
    (hstop : ∀ a s t, f a ++ s ≠ stop :: t) (as bs : List α) (s t : List β)
    (heq : as.flatMap f ++ stop :: s = bs.flatMap f ++ stop :: t) :
    as.map view = bs.map view ∧ s = t := by
  induction as generalizing bs with
  | nil =>
      cases bs with
      | nil => simpa using heq
      | cons b bs =>
          rw [List.flatMap_cons, List.append_assoc] at heq
          exact absurd heq.symm (hstop b _ _)
  | cons a as ih =>
      cases bs with
      | nil =>
          rw [List.flatMap_cons, List.append_assoc] at heq
          exact absurd heq (hstop a _ _)
      | cons b bs =>
          rw [List.flatMap_cons, List.flatMap_cons, List.append_assoc,
            List.append_assoc] at heq
          obtain ⟨hview, hrest⟩ := h a b _ _ heq
          obtain ⟨hviews, hleft⟩ := ih bs hrest
          exact ⟨by rw [List.map_cons, List.map_cons, hview, hviews], hleft⟩

theorem flatMap_eq (h : Determines f view) (hne : ∀ a, f a ≠ []) (as bs : List α)
    (heq : as.flatMap f = bs.flatMap f) : as.map view = bs.map view := by
  induction as generalizing bs with
  | nil =>
      cases bs with
      | nil => rfl
      | cons b bs => simp [hne b] at heq
  | cons a as ih =>
      cases bs with
      | nil => simp [hne a] at heq
      | cons b bs =>
          obtain ⟨hview, hrest⟩ := h a b _ _ heq
          rw [List.map_cons, List.map_cons, hview, ih bs hrest]

end Determines

namespace Text

/-- Two runs of a class that are followed by something else are told from what they begin. -/
theorem append_inj_of_class (inClass : Char → Bool) {m n s t : Text} {c d : Char}
    (hm : ∀ x ∈ m, inClass x = true) (hn : ∀ x ∈ n, inClass x = true) (hc : inClass c = false)
    (hd : inClass d = false) (h : m ++ c :: s = n ++ d :: t) : m = n ∧ c :: s = d :: t := by
  induction m generalizing n with
  | nil =>
      cases n with
      | nil => exact ⟨rfl, h⟩
      | cons x n =>
          obtain ⟨rfl, -⟩ := List.cons.inj h
          simp [hn c (by simp)] at hc
  | cons x m ih =>
      cases n with
      | nil =>
          obtain ⟨rfl, -⟩ := List.cons.inj h
          simp [hm x (by simp)] at hd
      | cons y n =>
          obtain ⟨rfl, hrest⟩ := List.cons.inj h
          obtain ⟨rfl, hst⟩ :=
            ih (fun z hz => hm z (by simp [hz])) (fun z hz => hn z (by simp [hz])) hrest
          exact ⟨rfl, hst⟩

theorem toBytes_injective : Function.Injective toBytes := by
  intro s t h
  have hbytes : (String.ofList s).toByteArray = (String.ofList t).toByteArray := by
    simp only [String.toByteArray_ofList, List.utf8Encode]
    exact congrArg _ h
  exact String.ofList_injective (String.toByteArray_inj.1 hbytes)

theorem decimal_injective : Function.Injective decimal := by
  intro m n h
  calc
    m = Nat.ofDigitChars 10 (decimal m) 0 := Nat.ofDigitChars_ten_toDigits.symm
    _ = Nat.ofDigitChars 10 (decimal n) 0 := by rw [h]
    _ = n := Nat.ofDigitChars_ten_toDigits

end Text
end Doctype
