import Doctype.Proofs.Attribute.Pieces
import Doctype.Proofs.Reference.Characters

/-!
What a character reference means does not depend on where it stands. In the literal of an
entity it is expanded, and in a default value it is decoded; both give the same character, or
leave the reference as it is written (`expandChars_iff_decode`). The exception are bodies with
a plus sign in front of their digits, which are decoded but not expanded.
-/

namespace Doctype

namespace Attribute.Value

variable {g : Graph} {limits : Limits} {body : Text}

theorem pieces_writeReference {p : Piece} (hbody : ';' ∉ body)
    (h : Piece.ofBody? body = some p) : pieces (writeReference body) = [p] := by
  have hreference : reference? (body ++ [';']) = some (p, []) := by
    rw [reference?_append hbody, h]
    rfl
  have hpieces := pieces_reference hreference
  rwa [pieces_nil] at hpieces

theorem expand_of_pieces {p : Piece} {t : Text} (h : pieces t = [p]) {q : Progress}
    (hp : ∀ deeper, expandPiece g limits deeper .start p = .ok q) (room : Nat) :
    expand g limits room t .start = .ok q := by
  cases room with
  | zero =>
      rw [expand, h, List.foldlM_cons, hp]
      rfl
  | succ room =>
      rw [expand, h, List.foldlM_cons, hp]
      rfl

/-- A default value that is a character reference. -/
theorem normalize_writeReference (hbody : ';' ∉ body) (hhead : body.head? = some '#') :
    normalize g limits (writeReference body) false =
      .ok ⟨(Reference.decode body).elim (writeReference body) ([·]), [], []⟩ := by
  cases hdecode : Reference.decode body with
  | some c =>
      have hpiece : Piece.ofBody? body = some (.denoted c) := by
        rw [Piece.ofBody?, if_pos hhead, hdecode]
      rw [normalize, expand_of_pieces (pieces_writeReference hbody hpiece) fun _ => rfl]
      rfl
  | none =>
      have hpiece : Piece.ofBody? body = some (.verbatim (writeReference body)) := by
        rw [Piece.ofBody?, if_pos hhead, hdecode]
      have htext : (Buffer.empty.append (writeReference body)).toText =
        writeReference body := by simp
      rw [normalize, expand_of_pieces (pieces_writeReference hbody hpiece) fun _ => rfl]
      change Except.ok (⟨(Buffer.empty.append (writeReference body)).toText, [], []⟩ :
        Normalized) = _
      rw [htext]
      rfl

end Attribute.Value

namespace Reference

open Attribute.Value (writeReference)

variable {body : Text}

/-- A reference in the literal of an entity. -/
theorem expandChars_writeReference (hampersand : '&' ∉ body) (hbody : ';' ∉ body) :
    expandChars (writeReference body) =
      if isSigned body then writeReference body
      else (decode body).elim (writeReference body) ([·]) := by
  have hrest : '&' ∉ body ++ [';'] := by simpa using hampersand
  have hread := char?_append hbody []
  change expandChars ('&' :: (body ++ [';'])) = _
  split
  · next hsign =>
    rw [hsign, if_pos rfl] at hread
    rw [expandChars_ampersand hread, expandChars_of_notMem hrest]
    rfl
  · next hsign =>
    rw [if_neg hsign] at hread
    cases hdecode : decode body with
    | none =>
        rw [hdecode] at hread
        rw [expandChars_ampersand hread, expandChars_of_notMem hrest]
        rfl
    | some c =>
        rw [hdecode] at hread
        rw [expandChars_of_char? hread, expandChars_nil]
        rfl

/-- A body between an ampersand and a semicolon that has no sign is decoded to a character
exactly if the reference is expanded to it, and to none exactly if the reference is left as it
is; a default value that is the reference has the same normal form. With a sign the reference
is left as it is. -/
theorem expandChars_iff_decode {body : Text} (hampersand : '&' ∉ body) (hbody : ';' ∉ body) :
    (isSigned body = false →
      (∀ c, decode body = some c ↔ expandChars (writeReference body) = [c]) ∧
      (decode body = none ↔ expandChars (writeReference body) = writeReference body) ∧
      (body.head? = some '#' → ∀ g limits,
        Attribute.Value.normalize g limits (writeReference body) false =
        .ok ⟨expandChars (writeReference body), [], []⟩)) ∧
    (isSigned body = true → expandChars (writeReference body) = writeReference body) := by
  have hexpand := expandChars_writeReference hampersand hbody
  refine ⟨fun hsign => ?_, fun hsign => by rw [hexpand, if_pos hsign]⟩
  rw [if_neg (by simp [hsign])] at hexpand
  -- a reference as it is written has more than one character
  have hlong (c : Char) : writeReference body ≠ [c] := by
    intro heq
    have hlength := congrArg List.length heq
    simp [writeReference] at hlength
  rw [hexpand]
  refine ⟨fun c => ?_, ?_, fun hhead g limits => ?_⟩
  · cases decode body with
    | none => simp [hlong c]
    | some d => simp
  · cases decode body with
    | none => simp
    | some d => simp [Ne.symm (hlong d)]
  · exact Attribute.Value.normalize_writeReference hbody hhead

/-- A number with a sign is decoded, but the reference is not expanded. -/
theorem decode_signed :
    let body : Text := "#+60"
    '&' ∉ body ∧ ';' ∉ body ∧ decode body = some '<' ∧
      expandChars (writeReference body) = writeReference body ∧
      writeReference body ≠ ['<'] := by
  decide +kernel

/-- The hexadecimal reference to the less-than sign. -/
theorem expandChars_iff_decode_hexadecimal :
    let body : Text := "#x3C"
    '&' ∉ body ∧ ';' ∉ body ∧ isSigned body = false ∧
      expandChars (writeReference body) = ['<'] ∧
      ∀ g limits, Attribute.Value.normalize g limits (writeReference body) false =
        .ok ⟨['<'], [], []⟩ := by
  intro body
  have hampersand : '&' ∉ body := by decide
  have hbody : ';' ∉ body := by decide
  have hsign : isSigned body = false := rfl
  obtain ⟨hiff, -, hvalue⟩ := (expandChars_iff_decode hampersand hbody).1 hsign
  have hexpand : expandChars (writeReference body) = ['<'] := (hiff '<').1 (by decide)
  refine ⟨hampersand, hbody, hsign, hexpand, fun g limits => ?_⟩
  rw [hvalue rfl, hexpand]

end Reference
end Doctype
