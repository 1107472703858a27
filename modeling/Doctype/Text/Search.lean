import Doctype.Text

/-!
The first place where a mark stands in a text. `breakAt? mark t` gives what is before it and
what is after it, and the three parts together are the text (`breakAt?_eq_some`).
-/

namespace Doctype.Text

/-- Looks for `mark` from here on; `before` is what was passed, reversed. -/
def breakFrom? (mark before t : Text) : Option (Text × Text) :=
  match dropPrefix? mark t with
  | some after => some (before.reverse, after)
  | none =>
    match t with
    | [] => none
    | c :: t => breakFrom? mark (c :: before) t

def breakAt? (mark t : Text) : Option (Text × Text) :=
  breakFrom? mark [] t

theorem breakFrom?_eq_some {mark before t a b : Text}
    (h : breakFrom? mark before t = some (a, b)) : before.reverse ++ t = a ++ mark ++ b := by
  fun_induction breakFrom? mark before t with
  | case1 before t after hd =>
    cases h
    simp [dropPrefix?_eq_some hd]
  | case2 => simp at h
  | case3 before c t _ ih => simpa using ih h

theorem breakAt?_eq_some {mark t a b : Text} (h : breakAt? mark t = some (a, b)) :
    t = a ++ mark ++ b := by
  simpa using breakFrom?_eq_some h

theorem breakAt?_suffix {mark t a b : Text} (h : breakAt? mark t = some (a, b)) : b <:+ t :=
  ⟨a ++ mark, (breakAt?_eq_some h).symm⟩

end Doctype.Text
