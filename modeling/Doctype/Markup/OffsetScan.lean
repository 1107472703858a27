import Doctype.Markup.Attempt
import Doctype.Markup.Offset

/-!
Scanning by byte offsets. A text is scanned from an offset on, item after item, and the text of
an entity that is referred to from its beginning; the references of a body are expanded where
they stand. There is no count of steps or levels: what is expanded or scanned next must be
smaller (`expandAt`, `scanAt`), which is measured by the levels that the limits leave above the
active entities and then by what is left of the text.
-/

namespace Doctype.Markup

variable {σ : Type}

/-! ### Expanding -/

def enterChecked (c : Setting σ) (fail : Fault → Error) (name : Text) : Scan σ Unit := do
  let s ← get
  if s.active.contains name then throw (fail (.recursiveEntity name s.active))
  set { s with expansions := s.expansions + 1 }
  check (c.limits.checkExpansions (s.expansions + 1))
  check (c.limits.checkDepth (s.active.length + 1))
  modify fun s => { s with active := s.active ++ [name] }

def declaredText (c : Setting σ) : Replacement → Scan σ Text
  | .internal text => return text
  | .external id base => do return (← load c base id).text

/-- What stands at an offset of a text in which references are expanded: nothing any more, or a
character behind which a quotation mark may be open, or a reference. The offset behind it comes
last. -/
inductive Passage
  | textEnd
  | char (d : Char) (quote : Option Char) (next : Nat)
  | reference (name : Text) (next : Nat)

def passageAt (inLiterals : Bool) (text : Text) (pos : Nat) (quote : Option Char) :
    Option Passage := do
  match ← text.from? pos with
  | [] => return .textEnd
  | d :: _ =>
    if d = '%' && (quote.isNone || inLiterals) then
      match ← referenceAt text pos with
      | some (name, next) => return .reference name next
      | none => return .char '%' quote (pos + 1)
    else if Lexer.isQuote d then return .char d (quoteAfter quote d) (pos + 1)
    else return .char d quote (pos + d.utf8Size)

/-- Writes what a reference between two offsets is replaced with, or the reference if it is to
no entity. -/
def insertAt (text : Text) (pos next : Nat) (quote : Option Char) (out : Buffer) :
    Option Text → Option Buffer
  | some replacement =>
    some (if quote.isNone then ((out.push ' ').append replacement).push ' '
      else out.append replacement)
  | none => (text.between? pos next).map out.append

/-- What is to be expanded: a text from an offset on, where a quotation mark may be open,
behind what is written. -/
structure Expanding where
  text : Text
  pos : Nat
  quote : Option Char
  out : Buffer

def Expanding.start (text : Text) : Expanding :=
  ⟨text, 0, none, .empty⟩

def levelAt (c : Setting σ) (s : State σ) : Nat :=
  c.limits.entityDepth - s.active.length

def Expanding.measure (c : Setting σ) (e : Expanding) (s : State σ) : Nat × Nat :=
  (levelAt c s, Text.size e.text - e.pos)

/-- What an entity is replaced with: its text, in which `expand` expands the references; `none`
if it is undeclared. -/
def replaceAt (c : Setting σ) (fail : Fault → Error) (expand : Expanding → Attempt σ Text)
    (name : Text) : Attempt σ (Option Text) := do
  match (← perform get).entities.lookup name with
  | none => return none
  | some r =>
    perform (enterChecked c fail name)
    let text ← perform (declaredText c r)
    let expanded ← expand (.start text)
    perform leave
    perform (check (c.limits.checkExpansionSize (Text.size expanded)))
    return some expanded

/-- Expands the references of a text, the first of them here and the others with `expand`. -/
def expandStep (c : Setting σ) (fail : Fault → Error) (inLiterals : Bool)
    (expand : Expanding → Attempt σ Text) (e : Expanding) : Attempt σ Text := do
  match ← slice (passageAt inLiterals e.text e.pos e.quote) with
  | .textEnd =>
    perform (check (c.limits.checkExpansionSize e.out.bytes))
    return e.out.toText
  | .char d quote next => expand ⟨e.text, next, quote, e.out.push d⟩
  | .reference name next =>
    let replacement ← replaceAt c fail expand name
    let out ← slice (insertAt e.text e.pos next e.quote e.out replacement)
    expand ⟨e.text, next, e.quote, out⟩

def expandAt (c : Setting σ) (fail : Fault → Error) (inLiterals : Bool) :
    Expanding → Attempt σ Text :=
  descend (Expanding.measure c) (expandStep c fail inLiterals)

def replacementAt (c : Setting σ) (fail : Fault → Error) (inLiterals : Bool) (name : Text) :
    Attempt σ (Option Text) :=
  replaceAt c fail (expandAt c fail inLiterals) name

/-! ### Contexts -/

/-- Where a text comes from, whatever the text is. -/
structure Context where
  label : Text
  location : Option Location

namespace Context

def ofResource (r : Resource) : Context :=
  ⟨r.location.print, some r.location⟩

def ofEntity (outer : Context) (name : Text) : Context :=
  ⟨outer.label ++ " (".toList ++ writeReference name ++ [')'], outer.location⟩

def site (ctx : Context) (text : Text) : Site :=
  ⟨ctx.label, ctx.location, Text.lineBreaks text⟩

def errorAt (ctx : Context) (text : Text) (pos : Nat) (fault : Fault) : Error :=
  .eventSource (.markup ctx.label (text.lineBreaksBefore pos + 1) fault)

end Context

/-! ### Ends -/

/-- What a scan goes up to: the end of the text, the bracket behind an internal subset, or the
end of an included section. -/
inductive Terminator
  | textEnd
  | bracket
  | sectionEnd

namespace Terminator

def faultAtEnd : Terminator → Option Fault
  | textEnd => none
  | bracket => some .unterminatedSubset
  | sectionEnd => some .unterminatedSection

/-- How many bytes further on the scan ends, if it ends where `rest` is what is left. -/
def stopsAt? (rest : Text) : Terminator → Option Nat
  | textEnd => none
  | bracket => if List.isPrefixOf [']'] rest then some 0 else none
  | sectionEnd => if List.isPrefixOf "]]>".toList rest then some 3 else none

end Terminator

/-! ### Scanning -/

/-- The keyword of a conditional section, which may be the replacement text of an entity. -/
def keywordTextAt (c : Setting σ) (fail : Fault → Error) : SectionKeyword → Attempt σ Text
  | .literal keyword => return keyword
  | .reference name => do
    match ← replacementAt c fail false name with
    | some replacement => return Text.trim replacement
    | none => throw (fail (.undeclaredEntity name))

def declareAt (c : Setting σ) (ctx : Context) (fail : Fault → Error) (kind : DeclarationKind)
    (body : Text) : Attempt σ Unit := do
  let body ← expandAt c fail (kind = .entity) (.start body)
  let e ← readOrFail fail (eventAt kind body)
  perform (report c e)
  perform (modify (State.define ctx.location e))

/-- What is to be scanned: a text from an offset on, up to what ends it. -/
structure Spot where
  context : Context
  text : Text
  terminator : Terminator
  pos : Nat

def Spot.start (ctx : Context) (text : Text) : Spot :=
  ⟨ctx, text, .textEnd, 0⟩

def Spot.measure (c : Setting σ) (spot : Spot) (s : State σ) : Nat × Nat :=
  (levelAt c s, Text.size spot.text - spot.pos)

def scanEntityAt (c : Setting σ) (scan : Spot → Attempt σ Nat) (ctx : Context)
    (fail : Fault → Error) (name : Text) : Attempt σ Unit := do
  match (← perform get).entities.lookup name with
  | none => return
  | some (.internal text) =>
    perform (enterChecked c fail name)
    let _ ← scan (.start (ctx.ofEntity name) text)
    perform leave
  | some (.external id base) =>
    perform (enterChecked c fail name)
    let r ← perform (load c base id)
    perform (check (c.limits.checkExpansionSize (Text.size r.text)))
    let _ ← scan (.start (.ofResource r) r.text)
    perform leave

def handleAt (c : Setting σ) (scan : Spot → Attempt σ Nat) (ctx : Context)
    (fail : Fault → Error) : Item → Attempt σ Unit
  | .comment text => perform (report c (.comment text))
  | .instruction target data => perform (report c (.instruction target data))
  | .declaration kind body => declareAt c ctx fail kind body
  | .reference name => scanEntityAt c scan ctx fail name
  | _ => return

def passAt (c : Setting σ) (scan : Spot → Attempt σ Nat) (ctx : Context)
    (text : Text) (pos : Nat) (read : Option (Except Fault (Item × Nat))) : Attempt σ Nat := do
  let (item, next) ← readOrFail (ctx.errorAt text pos) read
  handleAt c scan ctx (ctx.errorAt text pos) item
  return next

/-- Scans what an opened conditional section leaves, up to the end of the section, and gives
the offset behind it. -/
def openedAt (scan : Spot → Attempt σ Nat) (ctx : Context) (text : Text) :
    Except (Fault × Nat) (SectionKind × Nat) → Attempt σ Nat
  | .ok (.included, next) => scan ⟨ctx, text, .sectionEnd, next⟩
  | .ok (.ignored, next) => return next
  | .error (fault, place) => throw (ctx.errorAt text place fault)

def sectionAt (c : Setting σ) (scan : Spot → Attempt σ Nat) (ctx : Context) (text : Text)
    (pos : Nat) : Attempt σ Nat := do
  let start ← slice (skipBlanksAt text (pos + 3))
  let (keyword, stop) ← readOrFail (ctx.errorAt text start) (keywordAt text start)
  let word ← keywordTextAt c (ctx.errorAt text start) keyword
  openedAt scan ctx text (← slice (openSectionAt text pos start word stop))

/-- The parts of the scanner, each of which scans what begins with its mark. -/
inductive Part
  | comment
  | instruction
  | conditional
  | declaration
  | reference

namespace Part

def mark : Part → Text
  | comment => "<!--"
  | instruction => "<?"
  | conditional => "<!["
  | declaration => "<!"
  | reference => "%"

def ofMark? (rest : Text) : Option Part :=
  [comment, instruction, conditional, declaration, reference].find? fun part =>
    part.mark.isPrefixOf rest

end Part

def partAt (c : Setting σ) (scan : Spot → Attempt σ Nat) (ctx : Context) (text : Text)
    (pos : Nat) : Part → Attempt σ Nat
  | .comment => passAt c scan ctx text pos (commentAt text pos)
  | .instruction => passAt c scan ctx text pos (instructionAt text pos)
  | .conditional => sectionAt c scan ctx text pos
  | .declaration => passAt c scan ctx text pos (declarationAt text pos)
  | .reference => passAt c scan ctx text pos (referringAt text pos)

/-- Scans the item at an offset, where a character and what is behind it are left, and gives
the offset behind it. -/
def itemAt (c : Setting σ) (scan : Spot → Attempt σ Nat) (ctx : Context) (text : Text)
    (pos : Nat) (d : Char) (t : Text) : Attempt σ Nat :=
  match Part.ofMark? (d :: t) with
  | some part => partAt c scan ctx text pos part
  | none => throw (ctx.errorAt text pos (.unexpectedChar d))

/-- What a scan comes to behind the blanks at an offset: its end, or what is wrong there with
the text, or an item, which begins with a character. -/
inductive Landing
  | ended (pos : Nat)
  | failed (pos : Nat) (fault : Fault)
  | item (pos : Nat) (d : Char) (t : Text)

def landingAt (terminator : Terminator) (text : Text) (pos : Nat) : Option Landing := do
  let pos ← skipBlanksAt text pos
  match ← text.from? pos with
  | [] =>
    match terminator.faultAtEnd with
    | none => return .ended pos
    | some fault => return .failed pos fault
  | d :: t =>
    match terminator.stopsAt? (d :: t) with
    | some n => return .ended (pos + n)
    | none => return .item pos d t

/-- Scans a text, the first item of it here and the others with `scan`. -/
def scanSpot (c : Setting σ) (scan : Spot → Attempt σ Nat) (spot : Spot) : Attempt σ Nat := do
  match ← slice (landingAt spot.terminator spot.text spot.pos) with
  | .ended pos => return pos
  | .failed pos fault => throw (spot.context.errorAt spot.text pos fault)
  | .item pos d t =>
    let next ← itemAt c scan spot.context spot.text pos d t
    scan ⟨spot.context, spot.text, spot.terminator, next⟩

/-- Scans a text from an offset on, and gives the offset where the scan ends. -/
def scanAt (c : Setting σ) : Spot → Attempt σ Nat :=
  descend (Spot.measure c) (scanSpot c)

end Doctype.Markup
