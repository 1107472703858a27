import Doctype.Error

/-!
The declarations of a document type as they are met: raw events, the handlers that take them,
and a log of them. A source gives its events to a handler in order; a handler may refuse one,
which ends the source.
-/

namespace Doctype

/-- Whether an entity is referred to from content or from the declarations. -/
inductive Scope
  | general
  | parameter
  deriving DecidableEq

def Scope.label : Scope → Text
  | general => "general"
  | parameter => "parameter"

/-- A declaration, comment or processing instruction; bodies are as written. -/
inductive Event
  | element (name contentModel : Text)
  | attributeList (owner definitions : Text)
  | entity (scope : Scope) (name definition : Text)
  | notationType (name externalId : Text)
  | comment (text : Text)
  | instruction (target data : Text)
  deriving DecidableEq

namespace Event

/-- What an event is about: the declared name, the element of an attribute list, the target of
an instruction. -/
def name? : Event → Option Text
  | element name _ => some name
  | attributeList owner _ => some owner
  | entity _ name _ => some name
  | notationType name _ => some name
  | comment _ => none
  | instruction target _ => some target

def isDeclaration : Event → Bool
  | comment _ => false
  | instruction _ _ => false
  | _ => true

end Event

/-- Takes events one after the other, and then their end; its state is `σ`. -/
structure Handler (σ : Type) where
  accept : σ → Event → Except Error σ
  finish : σ → Except Error σ

/-- The events that a handler has taken, and whether it was told their end. -/
structure Recording where
  events : Array Event
  isFinished : Bool

namespace Recording

def empty : Recording :=
  ⟨#[], false⟩

def handler : Handler Recording where
  accept r e := .ok { r with events := r.events.push e }
  finish r := .ok { r with isFinished := true }

end Recording

namespace Handler

variable {σ : Type}

/-- Passes declarations on and ignores everything else. -/
def declarationsOnly (h : Handler σ) : Handler σ where
  accept s e := if e.isDeclaration then h.accept s e else .ok s
  finish s := .ok s

/-- Passes a number of events on and answers the next one with an error; the state counts the
events that may still come. -/
def refusing (h : Handler σ) (error : Error) : Handler (Nat × σ) where
  accept
    | (0, _), _ => .error error
    | (n + 1, s), e => (h.accept s e).map fun s => (n, s)
  finish := fun (n, s) => (h.finish s).map fun s => (n, s)

end Handler

/-- The events of a source, and whether it stopped before the end of its input. -/
structure Log where
  events : List Event
  stoppedEarly : Bool

/-- The log of a run: the end that a source announces is a success. -/
def Log.ofRun (r : Recording) : Except Error Unit → Except Error Log
  | .ok () => .ok ⟨r.events.toList, false⟩
  | .error .endOfDtd => .ok ⟨r.events.toList, true⟩
  | .error e => .error e

/-- A list of events as a source that may announce the end of the document type after some of
them. -/
structure Stream where
  events : List Event
  stopAfter : Option Nat

namespace Stream

variable {σ : Type}

/-- Gives events to a handler; `count` were given before. -/
def runFrom (h : Handler σ) (stopAfter : Option Nat) (count : Nat) (s : σ) :
    List Event → σ × Except Error Unit
  | [] =>
    match h.finish s with
    | .ok s => (s, .ok ())
    | .error e => (s, .error e)
  | event :: events =>
    if stopAfter = some count then
      match h.finish s with
      | .ok s => (s, .error .endOfDtd)
      | .error e => (s, .error e)
    else
      match h.accept s event with
      | .ok s => runFrom h stopAfter (count + 1) s events
      | .error e => (s, .error e)

def run (stream : Stream) (h : Handler σ) (s : σ) : σ × Except Error Unit :=
  runFrom h stream.stopAfter 0 s stream.events

def collect (stream : Stream) : Except Error Log :=
  let (recording, result) := stream.run Recording.handler .empty
  Log.ofRun recording result

end Stream
end Doctype
