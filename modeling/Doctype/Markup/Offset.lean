import Doctype.Markup.Body
import Doctype.Markup.Item
import Doctype.Markup.Section
import Doctype.Text.Slice

/-!
Reading markup by byte offsets. The searches for the end of blanks, names and references, of a
declaration and of a section that is skipped, and the readers of items, of the keyword and the
bracket of a conditional section and of the body of a declaration. Each takes slices of a text
and adds up offsets, and is none if a slice is not there.
-/

namespace Doctype.Markup

/-! ### Blanks and names -/

def skipBlanksAt (text : Text) (pos : Nat) : Option Nat := do
  let rest ← text.from? pos
  return ((Text.findChar? (fun c => !isBlank c) rest).map (pos + ·)).getD (Text.size text)

/-- The same, one blank after the other. -/
def passBlanksAt (text : Text) (pos : Nat) : Option Nat :=
  match _hrest : text.from? pos with
  | none => none
  | some [] => some pos
  | some (c :: _) => if isBlank c then passBlanksAt text (pos + c.utf8Size) else some pos
termination_by Text.size text - pos
decreasing_by
  have hsize := Text.size_of_from? _hrest
  have hc := c.utf8Size_pos
  rw [Text.size_cons] at hsize
  omega

def nameAt (text : Text) (pos : Nat) : Option (Option (Text × Nat)) := do
  let rest ← text.from? pos
  match rest with
  | [] => return none
  | c :: more =>
    if isNameStart c then
      let stop := ((Text.findChar? (fun c => !isNameChar c) more).map (c.utf8Size + ·)).getD
        (Text.size rest)
      let name ← rest.upTo? stop
      return some (name, pos + stop)
    else return none

/-- The name in a reference whose percent sign stands at an offset, and the offset behind its
semicolon. -/
def referenceAt (text : Text) (pos : Nat) : Option (Option (Text × Nat)) :=
  match text.from? (pos + 1) with
  | none => some none
  | some behind => do
    match ← nameAt behind 0 with
    | none => return none
    | some (name, stop) =>
      match ← behind.from? stop with
      | ';' :: _ => return some (name, pos + 1 + (stop + 1))
      | _ => return none

/-! ### Ends -/

/-- The offset of the first `>` of a text that is outside of quotation marks. -/
def closingFrom? (quote : Option Char) : Text → Option Nat
  | [] => none
  | c :: t =>
    if c = '>' && quote.isNone then some 0
    else (closingFrom? (quoteAfter quote c) t).map (c.utf8Size + ·)

def declarationEndAt (text : Text) (pos : Nat) : Option (Option Nat) := do
  let rest ← text.from? pos
  return (closingFrom? none rest).map (pos + ·)

/-- The first mark of a conditional section in a text, and the number of bytes up to behind it;
it is missing if no section ends in the text. -/
inductive SectionMark
  | missing
  | opening (bytes : Nat)
  | closing (bytes : Nat)

def SectionMark.first (rest : Text) : SectionMark :=
  match Text.find? "]]>" rest, Text.find? "<![" rest with
  | none, _ => missing
  | some close, some start =>
    if start < close then opening (start + 3) else closing (close + 3)
  | some close, none => closing (close + 3)

theorem SectionMark.pos_and_le {rest : Text} {bytes : Nat}
    (h : first rest = opening bytes ∨ first rest = closing bytes) :
    0 < bytes ∧ bytes ≤ Text.size rest := by
  have hend {mark : Text} {n : Nat} (hmark : Text.size mark = 3)
      (hfind : Text.find? mark rest = some n) : 0 < n + 3 ∧ n + 3 ≤ Text.size rest := by
    have := Text.find?_add_size_le hfind
    omega
  unfold first at h
  split at h
  · rcases h with h | h <;> cases h
  · next close start hclose hstart =>
    split at h
    · rcases h with h | h <;> cases h
      exact hend (by decide) hstart
    · rcases h with h | h <;> cases h
      exact hend (by decide) hclose
  · next close hclose _ =>
    rcases h with h | h <;> cases h
    exact hend (by decide) hclose

/-- The offset behind the end of a skipped section in which `depth` sections are open. -/
def skipIgnoredAt (text : Text) (depth pos : Nat) : Option (Option Nat) :=
  if depth = 0 then some (some pos)
  else
    match _hrest : text.from? pos with
    | none => none
    | some rest =>
      match _hmark : SectionMark.first rest with
      | .missing => some none
      | .opening bytes => skipIgnoredAt text (depth + 1) (pos + bytes)
      | .closing bytes => skipIgnoredAt text (depth - 1) (pos + bytes)
termination_by Text.size text - pos
decreasing_by
  all_goals
    have hsize := Text.size_of_from? _hrest
  · have hbytes := SectionMark.pos_and_le (.inl _hmark)
    omega
  · have hbytes := SectionMark.pos_and_le (.inr _hmark)
    omega

/-! ### Items -/

def commentAt (text : Text) (pos : Nat) : Option (Except Fault (Item × Nat)) := do
  let body ← text.from? (pos + 4)
  match Text.find? "-->" body with
  | none => return .error .unterminatedComment
  | some n =>
    let comment ← body.upTo? n
    return .ok (.comment comment, pos + 4 + n + 3)

def instructionAt (text : Text) (pos : Nat) : Option (Except Fault (Item × Nat)) := do
  let rest ← text.from? pos
  let behind ← rest.from? 2
  match Text.find? "?>" behind with
  | none => return .error .unterminatedInstruction
  | some n =>
    let stop := n + 2
    let inside ← rest.between? 2 stop
    match ← nameAt inside 0 with
    | none => return .error .instructionWithoutTarget
    | some (target, next) =>
      let next ← passBlanksAt inside next
      let data ← inside.from? next
      return .ok (if Item.isDeclarationTarget target then .textDeclaration
        else .instruction target data, pos + stop + 2)

def wordAt (text : Text) : Option (Text × Nat) := do
  return (← nameAt text 0).getD ([], 0)

def declarationAt (text : Text) (pos : Nat) : Option (Except Fault (Item × Nat)) := do
  match ← declarationEndAt text pos with
  | none => return .error .unterminatedDeclaration
  | some stop =>
    let inside ← text.between? (pos + 2) stop
    let (keyword, next) ← wordAt inside
    let body ← inside.from? next
    match DeclarationKind.ofKeyword? keyword with
    | some kind => return .ok (.declaration kind body, stop + 1)
    | none =>
      return .error (if keyword.isEmpty then .keywordMissing else .unknownDeclaration keyword)

def referringAt (text : Text) (pos : Nat) : Option (Except Fault (Item × Nat)) := do
  match ← referenceAt text pos with
  | some (name, stop) => return .ok (.reference name, stop)
  | none => return .error .malformedReference

def keywordAt (text : Text) (start : Nat) : Option (Except Fault (SectionKeyword × Nat)) := do
  match ← text.from? start with
  | '%' :: _ =>
    match ← referenceAt text start with
    | none => return .error .malformedReference
    | some (name, stop) => return .ok (.reference name, stop)
  | rest =>
    let (keyword, next) ← wordAt rest
    return .ok (.literal keyword, start + next)

/-- Opens the section whose keyword ends at an offset. The faults are told where the section
begins, at `item`, or where its keyword does, at `start`. -/
def openSectionAt (text : Text) (item start : Nat) (keyword : Text) (pos : Nat) :
    Option (Except (Fault × Nat) (SectionKind × Nat)) := do
  let opening ← skipBlanksAt text pos
  match ← text.from? opening with
  | '[' :: _ =>
    match SectionKind.ofKeyword? keyword with
    | some .included => return .ok (.included, opening + 1)
    | some .ignored =>
      match ← skipIgnoredAt text 1 (opening + 1) with
      | some next => return .ok (.ignored, next)
      | none => return .error (.unterminatedSection, item)
    | none => return .error (.unknownSection keyword, start)
  | _ => return .error (.sectionBracketMissing, opening)

def scopeAt (body : Text) (pos : Nat) : Option (Except Fault (Scope × Nat)) := do
  match ← body.from? pos with
  | '%' :: _ =>
    let next ← passBlanksAt body (pos + 1)
    return if next = pos + 1 then .error .blankAfterPercent else .ok (.parameter, next)
  | _ => return .ok (.general, pos)

def namedAt (kind : DeclarationKind) (body : Text) (scope : Scope) (pos : Nat) :
    Option (Except Fault Event) := do
  match ← nameAt body pos with
  | none => return .error (.unnamed kind)
  | some (name, next) =>
    let definition ← body.from? next
    return .ok (kind.event scope name (Text.trim definition))

def eventAt (kind : DeclarationKind) (body : Text) : Option (Except Fault Event) := do
  let pos ← passBlanksAt body 0
  if kind = .entity then
    match ← scopeAt body pos with
    | .ok (scope, next) => namedAt kind body scope next
    | .error fault => return .error fault
  else namedAt kind body .general pos

end Doctype.Markup
