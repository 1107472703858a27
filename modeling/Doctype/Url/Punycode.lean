import Doctype.Text.Number

/-!
Punycode: a domain label as ASCII letters, digits and hyphens. The characters outside ASCII are
told in increasing order, each by its distance from the one before in steps through the label.
Numbers above those of 32 bits are not read.
-/

namespace Doctype.Url.Punycode

def digit (n : Nat) : Char :=
  if n < 26 then Char.ofNat ('a'.toNat + n) else Char.ofNat ('0'.toNat + n - 26)

/-- The least number that a digit at place `k` leaves open. -/
def threshold (k bias : Nat) : Nat :=
  if k ≤ bias + 1 then 1 else if bias + 26 ≤ k then 26 else k - bias

theorem threshold_pos (k bias : Nat) : 0 < threshold k bias := by
  unfold threshold
  split
  · omega
  · split <;> omega

/-- A number in digits of growing weight. -/
def encodeNumber (bias k n : Nat) : Text :=
  let t := threshold k bias
  if n < t then [digit n]
  else digit (t + (n - t) % (36 - t)) :: encodeNumber bias (k + 36) ((n - t) / (36 - t))
termination_by n
decreasing_by
  have := threshold_pos k bias
  have := Nat.div_le_self (n - threshold k bias) (36 - threshold k bias)
  omega

/-- Divides by 35 until the number is small, and counts how often in steps of 36. -/
def shrink (delta k : Nat) : Nat × Nat :=
  if 455 < delta then shrink (delta / 35) (k + 36) else (delta, k)
termination_by delta
decreasing_by omega

def adapt (delta count : Nat) (isFirst : Bool) : Nat :=
  let d := if isFirst then delta / 700 else delta / 2
  let (d, k) := shrink (d + d / count) 0
  k + 36 * d / (d + 38)

/-- The distances written so far and what the next one depends on. -/
structure Progress where
  written : Text
  delta : Nat
  bias : Nat
  handled : Nat

/-- One step through the label for the code point `n`; `basic` characters were copied in
front. -/
def step (n basic : Nat) (p : Progress) (c : Char) : Progress :=
  if c.toNat < n then { p with delta := p.delta + 1 }
  else if c.toNat = n then
    { written := p.written ++ encodeNumber p.bias 36 p.delta
      delta := 0
      bias := adapt p.delta (p.handled + 1) (p.handled = basic)
      handled := p.handled + 1 }
  else p

/-- Encodes the code points `pending`, in increasing order; all below `n` are handled. -/
def encodeFrom (label : Text) (basic : Nat) (p : Progress) (n : Nat) : List Nat → Text
  | [] => p.written
  | m :: pending =>
    let p := { p with delta := p.delta + (m - n) * (p.handled + 1) }
    let p := label.foldl (step m basic) p
    encodeFrom label basic { p with delta := p.delta + 1 } (m + 1) pending

/-- A label with characters outside ASCII in its ASCII form, without the mark that tells this
form. -/
def encode (label : Text) : Text :=
  let basic := label.filter (·.toNat < 0x80)
  let others := (label.filter (0x80 ≤ ·.toNat)).map Char.toNat
  let start : Text := if basic.isEmpty then [] else basic ++ ['-']
  encodeFrom label basic.length ⟨start, 0, 72, basic.length⟩ 0x80 (others.mergeSort.eraseDups)

def digitValue? (c : Char) : Option Nat :=
  if 'a' ≤ c ∧ c ≤ 'z' then some (c.toNat - 'a'.toNat)
  else if '0' ≤ c ∧ c ≤ '9' then some (c.toNat - '0'.toNat + 26)
  else none

def maxNumber : Nat :=
  0xFFFFFFFF

/-- Adds the number that digits from place `k` on write to `n`, the first of them counting
`weight`; the sum and what is left. -/
def decodeNumber? (bias k weight n : Nat) : Text → Option (Nat × Text)
  | [] => none
  | c :: t =>
    match digitValue? c with
    | none => none
    | some d =>
      let n := n + d * weight
      let heavier := weight * (36 - threshold k bias)
      if maxNumber < n then none
      else if d < threshold k bias then some (n, t)
      else if maxNumber < heavier then none
      else decodeNumber? bias (k + 36) heavier n t

theorem decodeNumber?_length {bias k weight n m : Nat} {t rest : Text}
    (h : decodeNumber? bias k weight n t = some (m, rest)) : rest.length < t.length := by
  fun_induction decodeNumber? bias k weight n t with
  | case1 => simp at h
  | case2 => simp at h
  | case3 => simp at h
  | case4 =>
    simp only [Option.some.injEq, Prod.mk.injEq] at h
    simp [← h.2]
  | case5 => simp at h
  | case6 _ _ _ _ _ _ _ _ _ _ _ _ ih =>
    have := ih h
    simp only [List.length_cons]
    omega

/-- Puts the characters that the distances tell into the label `done`, from the place and code
point that the ones before led to. -/
def decodeFrom? (done : Text) (bias code place : Nat) (t : Text) : Option Text :=
  if t.isEmpty then some done
  else
    match _h : decodeNumber? bias 36 1 place t with
    | none => none
    | some (n, rest) =>
      let count := done.length + 1
      match Text.charOfCode? (code + n / count) with
      | none => none
      | some c =>
        decodeFrom? (done.insertIdx (n % count) c) (adapt (n - place) count (place = 0))
          (code + n / count) (n % count + 1) rest
termination_by t.length
decreasing_by exact decodeNumber?_length _h

/-- The label that an ASCII form without its mark and without capitals stands for. What is in
front of the last hyphen is copied; a hyphen at the front is none of the digits. -/
def decode? (t : Text) : Option Text :=
  let back := t.reverse
  match back.dropWhile (· ≠ '-') with
  | _ :: c :: basic =>
    decodeFrom? (c :: basic).reverse 72 0x80 0 (back.takeWhile (· ≠ '-')).reverse
  | _ => decodeFrom? [] 72 0x80 0 t

end Doctype.Url.Punycode
