import Doctype.Text.Blank
import Doctype.Text.Number

/-!
References to characters and to general entities in a text. A character reference stands for
one character and is never read again; an entity reference is known by its name.
-/

namespace Doctype.Reference

/-- The character that the body of a reference, between the ampersand and the semicolon,
numbers. -/
def decode : Text → Option Char
  | '#' :: 'x' :: t => (Text.number? 16 t).bind Text.charOfCode?
  | '#' :: t => (Text.number? 10 t).bind Text.charOfCode?
  | _ => none

/-- Digits of a base and the semicolon behind them: the character that they number, and what is
left. -/
def digitsThenEnd? (base : Nat) (t : Text) : Option (Char × Text) :=
  match t.dropWhile (Text.isDigit base) with
  | ';' :: rest =>
    match (Text.digits? base (t.takeWhile (Text.isDigit base))).bind Text.charOfCode? with
    | some c => some (c, rest)
    | none => none
  | _ => none

def char? : Text → Option (Char × Text)
  | '#' :: 'x' :: t => digitsThenEnd? 16 t
  | '#' :: t => digitsThenEnd? 10 t
  | _ => none

theorem digitsThenEnd?_length {base : Nat} {t rest : Text} {c : Char}
    (h : digitsThenEnd? base t = some (c, rest)) : rest.length < t.length := by
  unfold digitsThenEnd? at h
  split at h
  · next r hd =>
    have hs : (';' :: r) <:+ t := hd ▸ List.dropWhile_suffix _
    have hl := hs.length_le
    split at h
    · cases h
      simp only [List.length_cons] at hl
      omega
    · cases h
  · cases h

theorem char?_length {t rest : Text} {c : Char} (h : char? t = some (c, rest)) :
    rest.length < t.length := by
  unfold char? at h
  split at h
  · have := digitsThenEnd?_length h; simp; omega
  · have := digitsThenEnd?_length h; simp; omega
  · cases h

/-- Expands the character references of a text behind the reversed text `done`. -/
def expandFrom (done : Text) : Text → Text
  | [] => done.reverse
  | a :: t =>
    if a = '&' then
      match _h : char? t with
      | some (c, rest) => expandFrom (c :: done) rest
      | none => expandFrom (a :: done) t
    else expandFrom (a :: done) t
termination_by t => t.length
decreasing_by
  · have := char?_length _h; simp; omega
  · simp
  · simp

/-- The text with every character reference replaced by its character; a reference that denotes
no character stays as it is. -/
def expandChars (t : Text) : Text :=
  expandFrom [] t

def isEntityChar (c : Char) : Bool :=
  !(isWhiteSpace c || c = '&' || c = ';' || c = '#' || c = '%' || c = '<' || c = '>')

def entity? (t : Text) : Option (Text × Text) :=
  match t.takeWhile isEntityChar, t.dropWhile isEntityChar with
  | c :: name, ';' :: rest => some (c :: name, rest)
  | _, _ => none

theorem entity?_length {t name rest : Text} (h : entity? t = some (name, rest)) :
    rest.length < t.length := by
  unfold entity? at h
  split at h
  · next c n r _ hd =>
    have hs : (';' :: r) <:+ t := hd ▸ List.dropWhile_suffix _
    have hl := hs.length_le
    cases h
    simp only [List.length_cons] at hl
    omega
  · cases h

/-- The names of the entities that a text refers to, in order, with repeats. -/
def entities : Text → List Text
  | [] => []
  | a :: t =>
    if a = '&' then
      match _h : entity? t with
      | some (name, rest) => name :: entities rest
      | none => entities t
    else entities t
termination_by t => t.length
decreasing_by
  · have := entity?_length _h; simp; omega
  · simp
  · simp

end Doctype.Reference
