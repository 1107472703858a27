import Doctype.Content.Token

/-!
Content specifications: `EMPTY`, `ANY`, mixed content, element content, and the marker of one
that could not be read. A group is read from its tokens with the groups around it on a stack,
so the nesting that the bound is about is the height of that stack.
-/

namespace Doctype.Content

inductive Spec
  | empty
  | any
  | mixed (model : Particle)
  | children (model : Particle)
  | invalid (raw message : Text)

namespace Spec

/-- The grammar tree of mixed and element content. -/
def model? : Spec → Option Particle
  | mixed p => some p
  | children p => some p
  | _ => none

def elementNames (s : Spec) : List Text :=
  match s.model? with
  | some p => p.elementNames
  | none => []

def label : Spec → Text
  | empty => "empty"
  | any => "any"
  | mixed _ => "mixed"
  | children _ => "element"
  | invalid _ _ => "invalid"

/-- The canonical form of a specification; the text as written if it could not be read. -/
def print : Spec → Text
  | empty => "EMPTY"
  | any => "ANY"
  | mixed p => p.print
  | children p => p.print
  | invalid raw _ => raw

end Spec

/-- A group whose end is not read yet: the kind that its separators made it, and its members,
last first. -/
structure OpenGroup where
  kind : Option GroupKind
  members : List Particle

namespace OpenGroup

/-- A group of which only the parenthesis is read. -/
def start : OpenGroup :=
  ⟨none, []⟩

def add (g : OpenGroup) (p : Particle) : OpenGroup :=
  { g with members := p :: g.members }

/-- The finished group; one without separators is a sequence. -/
def close (g : OpenGroup) (mark : Option Mark) : Particle :=
  .group (g.kind.getD .sequence) g.members.reverse mark

/-- The group with a separator of one kind read, unless it has another kind already. -/
def separate? (g : OpenGroup) (kind : GroupKind) : Option OpenGroup :=
  match g.kind with
  | none => some { g with kind := some kind }
  | some k => if k = kind then some g else none

end OpenGroup

mutual

/-- Reads tokens from where a member of the group `g` must stand, to the end of the outermost
group; `outer` are the groups around `g`, and `stop` is the offset behind the last token. -/
def readMember (bound stop : Nat) (outer : List OpenGroup) (g : OpenGroup) :
    List Token → Except Failure (Particle × List Token)
  | ⟨_, .name n⟩ :: ⟨_, .mark m⟩ :: rest =>
    readSeparator bound stop outer (g.add (.name n (some m))) rest
  | ⟨_, .name n⟩ :: rest => readSeparator bound stop outer (g.add (.name n none)) rest
  | ⟨offset, .leftParen⟩ :: rest =>
    if outer.length + 2 ≤ bound then readMember bound stop (g :: outer) .start rest
    else .error ((Fault.tooDeep bound).at offset)
  | ⟨offset, .pcdata⟩ :: _ => .error (Fault.pcdataMisplaced.at offset)
  | ⟨offset, found⟩ :: _ => .error ((Fault.expectedParticle found).at offset)
  | [] => .error (Fault.endOfModel.at stop)

/-- Reads tokens from behind a member of the group `g` to the end of the outermost group. -/
def readSeparator (bound stop : Nat) (outer : List OpenGroup) (g : OpenGroup) :
    List Token → Except Failure (Particle × List Token)
  | ⟨_, .rightParen⟩ :: ⟨_, .mark m⟩ :: rest =>
    match outer with
    | [] => .ok (g.close (some m), rest)
    | parent :: outer => readSeparator bound stop outer (parent.add (g.close (some m))) rest
  | ⟨_, .rightParen⟩ :: rest =>
    match outer with
    | [] => .ok (g.close none, rest)
    | parent :: outer => readSeparator bound stop outer (parent.add (g.close none)) rest
  | ⟨offset, .comma⟩ :: rest =>
    match g.separate? .sequence with
    | some g => readMember bound stop outer g rest
    | none => .error (Fault.separatorsDiffer.at offset)
  | ⟨offset, .bar⟩ :: rest =>
    match g.separate? .choice with
    | some g => readMember bound stop outer g rest
    | none => .error (Fault.separatorsDiffer.at offset)
  | ⟨offset, found⟩ :: _ => .error ((Fault.expectedSeparator found).at offset)
  | [] => .error (Fault.unterminatedGroup.at stop)

end

/-- The end of mixed content behind its parenthesis: an asterisk, which may be missing if there
are no names. -/
def closeMixed (stop : Nat) (names : List Text) (rest : List Token) :
    Except Failure (Particle × List Token) :=
  let model (mark : Option Mark) : Particle :=
    .group .choice (.pcdata :: names.reverse.map (.name · none)) mark
  match rest with
  | ⟨_, .mark .zeroOrMore⟩ :: rest => .ok (model (some .zeroOrMore), rest)
  | ⟨offset, .mark m⟩ :: _ => .error ((Fault.mixedMarked m).at offset)
  | rest =>
    if names.isEmpty then .ok (model none, rest)
    else
      match rest with
      | ⟨offset, _⟩ :: _ => .error (Fault.mixedNotRepeated.at offset)
      | [] => .error (Fault.mixedNotRepeated.at stop)

/-- Reads mixed content behind `#PCDATA`; `names` are the names read so far, last first. -/
def readMixed (stop : Nat) (names : List Text) :
    List Token → Except Failure (Particle × List Token)
  | ⟨_, .rightParen⟩ :: rest => closeMixed stop names rest
  | ⟨_, .bar⟩ :: ⟨_, .name _⟩ :: ⟨offset, .mark _⟩ :: _ =>
    .error (Fault.markedNameInMixed.at offset)
  | ⟨_, .bar⟩ :: ⟨_, .name n⟩ :: rest => readMixed stop (n :: names) rest
  | ⟨_, .bar⟩ :: ⟨offset, .leftParen⟩ :: _ => .error (Fault.groupInMixed.at offset)
  | ⟨_, .bar⟩ :: ⟨offset, found⟩ :: _ => .error ((Fault.unexpectedInMixed found).at offset)
  | ⟨_, .bar⟩ :: [] => .error (Fault.unterminatedGroup.at stop)
  | ⟨offset, .comma⟩ :: _ => .error (Fault.commaInMixed.at offset)
  | ⟨offset, found⟩ :: _ => .error ((Fault.unexpectedInMixed found).at offset)
  | [] => .error (Fault.unterminatedGroup.at stop)

def expectEnd : List Token → Except Failure Unit
  | [] => .ok ()
  | ⟨offset, found⟩ :: _ => .error ((Fault.trailing found).at offset)

/-- The offset behind the last token, as if it had one byte. -/
def stopOffset (tokens : List Token) : Nat :=
  match tokens.getLast? with
  | some token => token.offset + 1
  | none => 0

def Spec.ofTokens (bound : Nat) (tokens : List Token) : Except Failure Spec := do
  let stop := stopOffset tokens
  match tokens with
  | ⟨_, .leftParen⟩ :: ⟨_, .pcdata⟩ :: rest =>
    let (model, rest) ← readMixed stop [] rest
    expectEnd rest
    return .mixed model
  | ⟨offset, .leftParen⟩ :: rest =>
    if 1 ≤ bound then
      let (model, rest) ← readMember bound stop [] .start rest
      expectEnd rest
      return .children model
    else throw ((Fault.tooDeep bound).at offset)
  | _ => throw (Fault.notAGroup.at 0)

/-- The specification that a text writes, its groups nested at most `bound` deep. -/
def Spec.parse (bound : Nat) (raw : Text) : Except Failure Spec :=
  let trimmed := Text.trimBy isBlank raw
  if trimmed = "EMPTY" then .ok .empty
  else if trimmed = "ANY" then .ok .any
  else if trimmed = [] then .error ⟨.blank, none⟩
  else do Spec.ofTokens bound (← tokens raw)

def Spec.parseFor (element : Text) (bound : Nat) (raw : Text) : Except Error Spec :=
  (Spec.parse bound raw).mapError (⟨element, raw, ·⟩)

end Doctype.Content
