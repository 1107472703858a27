import Doctype.Graph
import Doctype.Reference
import Doctype.Text.Buffer

/-!
The normal form of default values. References to characters and to internal entities are
replaced, blanks become spaces, and the values of all types but one are split at spaces. The
replacement text of an entity is read like the value itself, one level deeper; the bound on the
depth is what ends this.
-/

namespace Doctype.Attribute.Value

inductive Piece
  /-- A character that stands for itself. -/
  | literal (c : Char)
  /-- A reference that denotes a character. -/
  | denoted (c : Char)
  /-- A character reference that denotes none. -/
  | verbatim (t : Text)
  /-- A reference to an entity that is not predefined. -/
  | reference (name : Text)
  deriving DecidableEq

def predefined? (name : Text) : Option Char :=
  if name = "lt" then some '<'
  else if name = "gt" then some '>'
  else if name = "amp" then some '&'
  else if name = "apos" then some '\''
  else if name = "quot" then some '"'
  else none

def writeReference (name : Text) : Text :=
  '&' :: name ++ [';']

/-- The piece that a reference with a given body is; no piece if the ampersand stands for
itself. -/
def Piece.ofBody? (body : Text) : Option Piece :=
  if body.head? = some '#' then
    match Reference.decode body with
    | some c => some (denoted c)
    | none => some (verbatim (writeReference body))
  else if Text.isName body then
    match predefined? body with
    | some c => some (denoted c)
    | none => some (reference body)
  else none

/-- The reference behind an ampersand, which ends at the next semicolon, and what is left. -/
def reference? (t : Text) : Option (Piece × Text) :=
  match t.dropWhile (· ≠ ';') with
  | _ :: rest =>
    match Piece.ofBody? (t.takeWhile (· ≠ ';')) with
    | some piece => some (piece, rest)
    | none => none
  | [] => none

theorem reference?_length {t rest : Text} {p : Piece} (h : reference? t = some (p, rest)) :
    rest.length < t.length := by
  unfold reference? at h
  split at h
  · next c r hd =>
    have hs : c :: r <:+ t := hd ▸ List.dropWhile_suffix _
    have hl := hs.length_le
    split at h
    · cases h
      simp only [List.length_cons] at hl
      omega
    · cases h
  · cases h

/-- The pieces of a text behind the reversed pieces `done`. -/
def piecesFrom (done : List Piece) : Text → List Piece
  | [] => done.reverse
  | c :: t =>
    if c = '&' then
      match _h : reference? t with
      | some (piece, rest) => piecesFrom (piece :: done) rest
      | none => piecesFrom (.literal c :: done) t
    else piecesFrom (.literal c :: done) t
termination_by t => t.length
decreasing_by
  · have := reference?_length _h; simp; omega
  · simp
  · simp

def pieces (t : Text) : List Piece :=
  piecesFrom [] t

/-- A value under expansion: what is written of it, the entities that were met, those being
expanded, outermost first, and the number of expansions. -/
structure Progress where
  out : Buffer
  references : List Text
  undeclared : List Text
  active : List Text
  expansions : Nat

def Progress.start : Progress :=
  ⟨.empty, [], [], [], 0⟩

def remember (names : List Text) (name : Text) : List Text :=
  if names.contains name then names else names ++ [name]

/-- Begins the expansion of an entity. Expanding it must not lead back to it, and the number
and the depth of expansions are bounded; `deeper` is how to expand at the next level, if there
is one. -/
def enter {β : Type} (limits : Limits) (deeper : Option β) (name : Text) (p : Progress) :
    Except Error (β × Progress) :=
  if p.active.contains name then .error (.recursiveEntity name p.active)
  else
    match limits.checkExpansions (p.expansions + 1), deeper with
    | .error excess, _ => .error (.limitExceeded excess)
    | .ok (), none => .error (.limitExceeded (.depth (p.active.length + 1) limits.entityDepth))
    | .ok (), some expand =>
      .ok (expand, { p with expansions := p.expansions + 1, active := p.active ++ [name] })

def expandEntity (limits : Limits) (deeper : Option (Text → Progress → Except Error Progress))
    (name replacement : Text) (p : Progress) : Except Error Progress := do
  let (expand, inner) ← enter limits deeper name p
  let after ← expand replacement inner
  (limits.checkExpansionSize after.out.bytes).mapError .limitExceeded
  return { after with active := p.active }

def expandPiece (g : Graph) (limits : Limits)
    (deeper : Option (Text → Progress → Except Error Progress)) (p : Progress) :
    Piece → Except Error Progress
  | .literal c => .ok { p with out := p.out.push (if isBlank c then ' ' else c) }
  | .denoted c => .ok { p with out := p.out.push c }
  | .verbatim t => .ok { p with out := p.out.append t }
  | .reference name =>
    match g.entity? .general name with
    | none =>
      .ok { p with
        out := p.out.append (writeReference name)
        undeclared := remember p.undeclared name }
    | some e =>
      let p := { p with references := remember p.references name }
      match e.definition with
      | .external _ _ => .ok { p with out := p.out.append (writeReference name) }
      | .literal replacement => expandEntity limits deeper name replacement p

/-- Expands a text where entities may be nested `room` levels deeper. -/
def expand (g : Graph) (limits : Limits) : Nat → Text → Progress → Except Error Progress
  | 0, t, p => (pieces t).foldlM (expandPiece g limits none) p
  | room + 1, t, p => (pieces t).foldlM (expandPiece g limits (some (expand g limits room))) p

/-- The tokens of a value with single spaces between them. -/
def collapse (t : Text) : Text :=
  Text.join [' '] ((Text.splitBy (· = ' ') t).filter (! ·.isEmpty))

/-- A value in its normal form, with the declared entities that it refers to, directly or
through others, and the undeclared ones. -/
structure Normalized where
  value : Text
  references : List Text
  undeclared : List Text
  deriving DecidableEq

/-- The normal form of a default value; `isTokenized` tells whether it is split into tokens. -/
def normalize (g : Graph) (limits : Limits) (raw : Text) (isTokenized : Bool) :
    Except Error Normalized := do
  let p ← expand g limits limits.entityDepth raw .start
  let text := p.out.toText
  return ⟨if isTokenized then collapse text else text, p.references, p.undeclared⟩

end Doctype.Attribute.Value
