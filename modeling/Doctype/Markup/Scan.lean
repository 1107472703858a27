import Doctype.Entity.Definition
import Doctype.Markup.Body
import Doctype.Markup.Section
import Doctype.Reference
import Doctype.Resource
import Doctype.Text.Buffer

/-!
Scanning the markup of a document type: its declarations are given to a handler, and references
to parameter entities are expanded where they stand. Between declarations the replacement text
is scanned as markup; within one it is inserted, with a space on both sides unless it stands
between quotation marks. Expansions are nested at most as deep as the limits allow, which is
what the recursion over levels counts down; within one text every step leaves less of it.
-/

namespace Doctype.Markup

variable {σ : Type}

/-- The replacement text of a parameter entity, known or to be found from a location. -/
inductive Replacement
  | internal (text : Text)
  | external (id : ExternalId) (base : Option Location)
  deriving DecidableEq

structure Setting (σ : Type) where
  handler : Handler σ
  resolver : Resolver
  limits : Limits

/-- What a scan has come to. -/
structure State (σ : Type) where
  /-- The state of the handler. -/
  handled : σ
  /-- The parameter entities, in the order of their declarations. -/
  entities : List (Text × Replacement)
  /-- The entities that are being expanded, outermost first. -/
  active : List Text
  /-- Number of expansions that were begun. -/
  expansions : Nat
  /-- The external texts that were asked for, in order. -/
  asked : List Request

def State.loads (s : State σ) : Nat :=
  s.asked.length

def State.start (handled : σ) : State σ :=
  ⟨handled, [], [], 0, []⟩

/-- A part of a scan; what it did before it failed is kept. -/
abbrev Scan (σ α : Type) := EStateM Error (State σ) α

/-- Where a text comes from: what it is called in errors, the base of its references, and its
number of line breaks. -/
structure Site where
  label : Text
  location : Option Location
  lineBreaks : Nat

namespace Site

def ofResource (r : Resource) : Site :=
  ⟨r.location.print, some r.location, Text.lineBreaks r.text⟩

/-- The site of the replacement text of an entity that is referred to from another site. -/
def ofEntity (outer : Site) (name text : Text) : Site :=
  ⟨outer.label ++ " (".toList ++ writeReference name ++ [')'], outer.location,
    Text.lineBreaks text⟩

def error (site : Site) (rest : Text) (fault : Fault) : Error :=
  .eventSource (.markup site.label (site.lineBreaks - Text.lineBreaks rest + 1) fault)

end Site

def check (checked : Except Limits.Excess Unit) : Scan σ Unit :=
  match checked with
  | .ok () => pure ()
  | .error excess => throw (.limitExceeded excess)

def report (c : Setting σ) (e : Event) : Scan σ Unit := do
  let s ← get
  match c.handler.accept s.handled e with
  | .ok handled => set { s with handled }
  | .error error => throw error

def load (c : Setting σ) (base : Option Location) (id : ExternalId) : Scan σ Resource := do
  let s ← get
  let request : Request := ⟨base, id⟩
  set { s with asked := s.asked ++ [request] }
  match c.resolver.answer s.asked request with
  | .ok r => return r
  | .error error => throw error

/-- What a parameter entity with a definition is replaced by; one whose definition cannot be
read, or that has a notation, is none. -/
def Replacement.ofDefinition? (base : Option Location) (definition : Text) :
    Option Replacement :=
  match Entity.Definition.parse definition with
  | .ok (.literal value) => some (internal (Reference.expandChars value))
  | .ok (.external id none) => some (external id base)
  | _ => none

/-- Remembers a parameter entity that an event declares, unless its name has a meaning
already. -/
def State.define (base : Option Location) (e : Event) (s : State σ) : State σ :=
  match e with
  | .entity .parameter name definition =>
    match s.entities.lookup name, Replacement.ofDefinition? base definition with
    | none, some r => { s with entities := s.entities ++ [(name, r)] }
    | _, _ => s
  | _ => s

/-- Begins the expansion of an entity. Expanding it must not lead back to it, and the number
and the depth of expansions are bounded; `deeper` is what to do at the next level, if there is
one. -/
def enter {β : Type} (c : Setting σ) (fail : Fault → Error) (deeper : Option β) (name : Text) :
    Scan σ β := do
  let s ← get
  if s.active.contains name then throw (fail (.recursiveEntity name s.active))
  set { s with expansions := s.expansions + 1 }
  check (c.limits.checkExpansions (s.expansions + 1))
  match deeper with
  | none => throw (.limitExceeded (.depth (s.active.length + 1) c.limits.entityDepth))
  | some next =>
    modify fun s => { s with active := s.active ++ [name] }
    return next

def leave : Scan σ Unit :=
  modify fun s => { s with active := s.active.dropLast }

/-- The replacement text of an entity with the references in it expanded; `none` if it is
undeclared. -/
def expandEntity (c : Setting σ) (fail : Fault → Error) (deeper : Option (Text → Scan σ Text))
    (name : Text) : Scan σ (Option Text) := do
  match (← get).entities.lookup name with
  | none => return none
  | some r =>
    let expand ← enter c fail deeper name
    let text ← match r with
      | .internal text => pure text
      | .external id base => do pure (← load c base id).text
    let expanded ← expand text
    leave
    return some expanded

def expandPiece (replace : Text → Scan σ (Option Text)) (out : Buffer) : Piece → Scan σ Buffer
  | .char c => return out.push c
  | .reference name isQuoted => do
    match ← replace name with
    | some text =>
      return if isQuoted then out.append text else (out.push ' ').append text |>.push ' '
    | none => return out.append (writeReference name)

def expandPieces (c : Setting σ) (inLiterals : Bool) (replace : Text → Scan σ (Option Text))
    (t : Text) : Scan σ Text := do
  let out ← (pieces inLiterals t).foldlM (expandPiece replace) .empty
  check (c.limits.checkExpansionSize out.bytes)
  return out.toText

/-- Expands the references of a text where entities may be nested a number of levels deeper. -/
def expand (c : Setting σ) (fail : Fault → Error) (inLiterals : Bool) :
    Nat → Text → Scan σ Text
  | 0, t => expandPieces c inLiterals (expandEntity c fail none) t
  | level + 1, t =>
    expandPieces c inLiterals (expandEntity c fail (some (expand c fail inLiterals level))) t

def declare (c : Setting σ) (fail : Fault → Error) (site : Site) (level : Nat)
    (kind : DeclarationKind) (body : Text) : Scan σ Unit := do
  let body ← expand c fail (kind = .entity) level body
  match kind.read body with
  | .error fault => throw (fail fault)
  | .ok e =>
    report c e
    modify (State.define site.location e)

/-- Scans the replacement text of a parameter entity that is referred to between declarations;
an undeclared one is passed over. -/
def scanEntity (c : Setting σ) (fail : Fault → Error) (site : Site)
    (deeper : Option (Site → Text → Scan σ Unit)) (name : Text) : Scan σ Unit := do
  match (← get).entities.lookup name with
  | none => return
  | some (.internal text) =>
    let scan ← enter c fail deeper name
    scan (site.ofEntity name text) text
    leave
  | some (.external id base) =>
    let scan ← enter c fail deeper name
    let r ← load c base id
    check (c.limits.checkExpansionSize (Text.size r.text))
    scan (.ofResource r) r.text
    leave

def sectionKeyword (c : Setting σ) (fail : Fault → Error) (level : Nat) :
    SectionKeyword → Scan σ Text
  | .literal keyword => return keyword
  | .reference name => do
    let deeper := match level with
      | 0 => none
      | level + 1 => some (expand c fail false level)
    match ← expandEntity c fail deeper name with
    | some text => return Text.trim text
    | none => throw (fail (.undeclaredEntity name))

/-- Scans an item that is not the start of a conditional section. -/
def scanItem (c : Setting σ) (fail : Fault → Error) (site : Site) (level : Nat)
    (deeper : Option (Site → Text → Scan σ Unit)) : Item → Scan σ Unit
  | .comment text => report c (.comment text)
  | .instruction target data => report c (.instruction target data)
  | .declaration kind body => declare c fail site level kind body
  | .reference name => scanEntity c fail site deeper name
  | .textDeclaration => return
  | .sectionStart _ _ => return

/-- Where scanning ends: at the end of the text, or at the bracket behind an internal
subset. -/
inductive Stop
  | textEnd
  | bracket
  deriving DecidableEq

/-- Whether scanning ends in front of the character `c`; `opened` is the number of included
sections that are open. -/
def Stop.isAt (stop : Stop) (opened : Nat) (c : Char) : Bool :=
  stop = .bracket && opened = 0 && c = ']'

def Stop.faultAtEnd (stop : Stop) (opened : Nat) : Option Fault :=
  if 0 < opened then some .unterminatedSection
  else if stop = .bracket then some .unterminatedSubset
  else none

/-- What is left behind the end of an included section, if the text begins with it. -/
def sectionEnd? (opened : Nat) (t : Text) : Option Text :=
  if 0 < opened then Text.dropPrefix? "]]>" t else none

theorem sectionEnd?_length {opened : Nat} {t rest : Text}
    (h : sectionEnd? opened t = some rest) : rest.length < t.length := by
  unfold sectionEnd? at h
  split at h
  · simp [Text.dropPrefix?_eq_some h]
    omega
  · cases h

/-- Scans the items of a text up to where it stops, and gives what is left there. `opened` is
the number of included sections that are open, and `level` the number of levels that entities
may be nested deeper. -/
def scanItems (c : Setting σ) (level : Nat) (deeper : Option (Site → Text → Scan σ Unit))
    (stop : Stop) (site : Site) (opened : Nat) (text : Text) : Scan σ Text :=
  match _hb : Text.skipBlanks text with
  | [] =>
    match stop.faultAtEnd opened with
    | some fault => throw (site.error [] fault)
    | none => return []
  | d :: t =>
    if stop.isAt opened d then return d :: t
    else
      match _he : sectionEnd? opened (d :: t) with
      | some rest => scanItems c level deeper stop site (opened - 1) rest
      | none =>
        match _hi : Item.read d t with
        | .error f => throw (site.error f.rest f.fault)
        | .ok (.sectionStart keyword start, rest) => do
          let keyword ← sectionKeyword c (site.error start) level keyword
          match _hs : openSection (d :: t) start keyword rest with
          | .error f => throw (site.error f.rest f.fault)
          | .ok (.included, rest) => scanItems c level deeper stop site (opened + 1) rest
          | .ok (.ignored, rest) => scanItems c level deeper stop site opened rest
        | .ok (item, rest) => do
          scanItem c (site.error (d :: t)) site level deeper item
          scanItems c level deeper stop site opened rest
termination_by text.length
decreasing_by
  all_goals
    have hl := (Text.skipBlanks_suffix text).length_le
    rw [_hb] at hl
  · have := sectionEnd?_length _he
    omega
  all_goals
    have hr := Item.read_length _hi
    simp only [List.length_cons] at hl
  · have := openSection_length _hs
    omega
  · have := openSection_length _hs
    omega
  · omega

/-- Scans a text where entities may be nested a number of levels deeper. -/
def scan (c : Setting σ) : Nat → Stop → Site → Text → Scan σ Text
  | 0, stop, site, text => scanItems c 0 none stop site 0 text
  | level + 1, stop, site, text =>
    scanItems c (level + 1)
      (some fun site text => discard (scan c level .textEnd site text)) stop site 0 text

end Doctype.Markup
