/-!
Text as a list of characters, its length in UTF-8 bytes, and the line endings in it. A text
that was cut from the end of another one is a suffix of it, so a place in a text is told by
what is left there: `lineBreaks` and `size` of the two give the line and the offset.
-/

namespace Doctype

abbrev Text := List Char

instance : Coe String Text := ⟨String.toList⟩

namespace Text

/-- Number of bytes of a text in UTF-8. -/
def size (t : Text) : Nat :=
  t.foldl (fun n c => n + c.utf8Size) 0

theorem foldl_utf8Size (t : Text) (n : Nat) :
    t.foldl (fun n c => n + c.utf8Size) n = n + size t := by
  induction t generalizing n with
  | nil => rfl
  | cons c t ih =>
    have h : size (c :: t) = t.foldl (fun n c => n + c.utf8Size) (0 + c.utf8Size) := rfl
    rw [List.foldl_cons, ih, h, ih]
    omega

@[simp] theorem size_nil : size [] = 0 := rfl

@[simp] theorem size_cons (c : Char) (t : Text) : size (c :: t) = c.utf8Size + size t := by
  have h : size (c :: t) = t.foldl (fun n c => n + c.utf8Size) (0 + c.utf8Size) := rfl
  rw [h, foldl_utf8Size]
  omega

@[simp] theorem size_append (s t : Text) : size (s ++ t) = size s + size t := by
  induction s with
  | nil => simp
  | cons c s ih => simp [ih, Nat.add_assoc]

/-- Byte offset in `whole` of the place where `rest` is what is left. -/
def offset (whole rest : Text) : Nat :=
  size whole - size rest

/-- What is left after the first `n` bytes; a character that the cut would split is dropped. -/
def dropBytes : Nat → Text → Text
  | 0, t => t
  | _ + 1, [] => []
  | n + 1, c :: t => dropBytes (n + 1 - c.utf8Size) t
termination_by _ t => t.length

theorem size_dropBytes_le (n : Nat) (t : Text) : size (dropBytes n t) ≤ size t - n := by
  fun_induction dropBytes n t with
  | case1 t => simp
  | case2 n => simp
  | case3 n c t ih => rw [size_cons]; omega

def lineBreaks (t : Text) : Nat :=
  t.count '\n'

/-- Puts the line endings of `t` behind the reversed text `done`. -/
def unifyLineEnds (done : Text) : Text → Text
  | [] => done.reverse
  | '\r' :: '\n' :: t => unifyLineEnds ('\n' :: done) t
  | '\r' :: t => unifyLineEnds ('\n' :: done) t
  | c :: t => unifyLineEnds (c :: done) t

/-- Every line ends in a single line feed: a carriage return becomes one, and a pair of
carriage return and line feed counts once. -/
def normalizeLineEndings (t : Text) : Text :=
  unifyLineEnds [] t

def dropPrefix? (mark t : Text) : Option Text :=
  if mark.isPrefixOf t then some (t.drop mark.length) else none

theorem dropPrefix?_eq_some {mark t rest : Text} (h : dropPrefix? mark t = some rest) :
    t = mark ++ rest := by
  unfold dropPrefix? at h
  split at h
  · next hp =>
    simp only [List.isPrefixOf_iff_prefix] at hp
    obtain ⟨u, rfl⟩ := hp
    simp at h
    rw [h]
  · simp at h

theorem dropPrefix?_append (mark rest : Text) :
    dropPrefix? mark (mark ++ rest) = some rest := by
  simp [dropPrefix?]

def decimal (n : Nat) : Text :=
  Nat.toDigits 10 n

def join (separator : Text) (parts : List Text) : Text :=
  List.intercalate separator parts

/-- Cuts the text at every character that is a `separator`; the parts may be empty. -/
def splitBy (separator : Char → Bool) (t : Text) : List Text :=
  t.foldr (fun c parts =>
    match parts with
    | [] => [[c]]
    | part :: parts => if separator c then [] :: part :: parts else (c :: part) :: parts) [[]]

end Text
end Doctype
