import Doctype.Markup.Scan

/-!
Sources of declarations: the text of a document type, or a document whose prolog declares one.
In a document the internal subset comes before the external one, and what follows the prolog is
not read; a source that leaves something unread announces the end of the document type as an
error.
-/

namespace Doctype

inductive Source.Kind
  | dtd
  | document
  deriving DecidableEq

/-- A text with plain line ends and the base of its references. -/
structure Source where
  kind : Source.Kind
  text : Text
  location : Option Location

namespace Source

open Markup

variable {σ : Type}

def ofText (kind : Kind) (text : Text) : Source :=
  ⟨kind, Text.normalizeLineEndings text, none⟩

def ofFile (files : Files) (kind : Kind) (path : Text) : Except Error Source := do
  let text ← files.load path
  return ⟨kind, Text.normalizeLineEndings text, some (.path path)⟩

def label (s : Source) : Text :=
  match s.location, s.kind with
  | some location, _ => location.print
  | none, .dtd => "<dtd>"
  | none, .document => "<document>"

/-- The text of a source without what may stand in front of it. -/
def body (s : Source) : Text :=
  match s.kind with
  | .dtd => Text.dropDeclaration s.text
  | .document => Text.dropByteOrderMark s.text

def site (s : Source) : Site :=
  ⟨s.label, s.location, Text.lineBreaks s.body⟩

/-- What is left behind blanks, comments and processing instructions. -/
def skipMisc (text : Text) : Except Failure Text :=
  match _hb : Text.skipBlanks text with
  | '<' :: '!' :: '-' :: '-' :: t =>
    match _hc : Text.breakAt? "-->" t with
    | some (_, rest) => skipMisc rest
    | none => .error ⟨.closeMissing "-->", Text.skipBlanks text⟩
  | '<' :: '?' :: t =>
    match _hc : Text.breakAt? "?>" t with
    | some (_, rest) => skipMisc rest
    | none => .error ⟨.closeMissing "?>", Text.skipBlanks text⟩
  | t => .ok t
termination_by text.length
decreasing_by
  all_goals
    have hl := (Text.skipBlanks_suffix text).length_le
    have hr := (Text.breakAt?_suffix _hc).length_le
    rw [_hb] at hl
    simp only [List.length_cons] at hl
    omega

def readExternalId (t : Text) : Except Failure (Option ExternalId × Text) :=
  let next := Text.skipBlanks t
  if Text.startsBlank t ∧
      ((Text.dropPrefix? "SYSTEM" next).isSome ∨ (Text.dropPrefix? "PUBLIC" next).isSome) then
    match ExternalId.read false next with
    | .ok (id, rest) => .ok (some id, Text.skipBlanks rest)
    | .error f => .error ⟨.externalSubset f.fault, f.rest⟩
  else .ok (none, next)

/-- The document type declaration of a document up to its internal subset: the identifier of
the external subset, and what is left. -/
def readDoctype (text : Text) : Except Failure (Option ExternalId × Text) := do
  let start ← skipMisc text
  match Text.dropPrefix? "<!DOCTYPE" start with
  | none => throw ⟨.doctypeMissing, start⟩
  | some t =>
    if !Text.startsBlank t then throw ⟨.blankAfterDoctype, t⟩
    match Text.name? (Text.skipBlanks t) with
    | none => throw ⟨.rootNameMissing, t⟩
    | some (_, rest) => readExternalId rest

def expect {α : Type} (site : Site) (result : Except Failure α) : Scan σ α :=
  match result with
  | .ok a => pure a
  | .error f => throw (site.error f.rest f.fault)

def finish (c : Setting σ) : Scan σ Unit := do
  let s ← get
  match c.handler.finish s.handled with
  | .ok handled => set { s with handled }
  | .error error => throw error

/-- Scans the internal subset, if there is one, and gives what is left behind its bracket. -/
def scanInternal (c : Setting σ) (site : Site) (t : Text) : Scan σ Text := do
  match t with
  | '[' :: subset =>
    let rest ← Markup.scan c c.limits.entityDepth .bracket site subset
    return Text.skipBlanks (rest.drop 1)
  | t => return t

def scanExternal (c : Setting σ) (site : Site) (id : Option ExternalId) : Scan σ Unit := do
  match id with
  | none => return
  | some id =>
    let r ← load c site.location id
    discard (Markup.scan c c.limits.entityDepth .textEnd (.ofResource r) r.text)

def scanDocument (c : Setting σ) (site : Site) (text : Text) : Scan σ Unit := do
  let (id, t) ← expect site (readDoctype text)
  let t ← scanInternal c site t
  match t with
  | '>' :: rest =>
    scanExternal c site id
    finish c
    let left ← expect site (skipMisc rest)
    if !left.isEmpty then throw .endOfDtd
  | t => throw (site.error t .doctypeEndMissing)

def scanDtd (c : Setting σ) (site : Site) (text : Text) : Scan σ Unit := do
  discard (Markup.scan c c.limits.entityDepth .textEnd site text)
  finish c

/-- Scans a source whose size is within the bound. -/
def scan (s : Source) (c : Setting σ) : Scan σ Unit := do
  check (c.limits.checkDtdSize (Text.size s.text))
  match s.kind with
  | .dtd => scanDtd c s.site s.body
  | .document => scanDocument c s.site s.body

def run (s : Source) (resolver : Resolver) (limits : Limits) (h : Handler σ) (handled : σ) :
    σ × Except Error Unit :=
  match s.scan ⟨h, resolver, limits⟩ (State.start handled) with
  | .ok () state => (state.handled, .ok ())
  | .error e state => (state.handled, .error e)

def collect (s : Source) (resolver : Resolver) (limits : Limits) : Except Error Log :=
  let (recording, result) := s.run resolver limits Recording.handler .empty
  Log.ofRun recording result

end Source
end Doctype
