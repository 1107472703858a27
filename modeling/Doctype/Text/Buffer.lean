import Doctype.Text

/-!
A text that grows at its end and knows its size. `toText` is what was written; each operation
says what it does to it.
-/

namespace Doctype

/-- A text under construction, last character first, with its size in bytes. -/
structure Buffer where
  reversed : Text
  bytes : Nat
  bytes_eq : bytes = Text.size reversed

namespace Buffer

def toText (b : Buffer) : Text :=
  b.reversed.reverse

def empty : Buffer :=
  ⟨[], 0, rfl⟩

def push (b : Buffer) (c : Char) : Buffer :=
  ⟨c :: b.reversed, b.bytes + c.utf8Size, by rw [Text.size_cons, b.bytes_eq, Nat.add_comm]⟩

def append (b : Buffer) (t : Text) : Buffer :=
  t.foldl push b

@[simp] theorem toText_empty : empty.toText = [] := rfl

@[simp] theorem toText_push (b : Buffer) (c : Char) : (b.push c).toText = b.toText ++ [c] := by
  simp [toText, push]

@[simp] theorem toText_append (b : Buffer) (t : Text) :
    (b.append t).toText = b.toText ++ t := by
  unfold append
  induction t generalizing b with
  | nil => simp
  | cons c t ih => simp [ih]

theorem size_reverse (t : Text) : Text.size t.reverse = Text.size t := by
  induction t with
  | nil => rfl
  | cons c t ih => simp [ih, Nat.add_comm]

theorem bytes_eq_size (b : Buffer) : b.bytes = Text.size b.toText := by
  rw [toText, size_reverse, b.bytes_eq]

end Buffer
end Doctype
