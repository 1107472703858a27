import Doctype.Error
import Doctype.ExternalId
import Doctype.Text.Declaration

/-!
External texts. A resolver finds the text that an external identifier means in a text from some
base: among files, or in a catalog of texts, or in any way that depends on a state of its own.
-/

namespace Doctype

/-- An external text and where it came from, which is the base of the references in it. -/
structure Resource where
  location : Location
  text : Text

structure Request where
  base : Option Location
  id : ExternalId
  deriving DecidableEq

/-- Finds external texts. What it answers may depend on all that it was asked before, and in
this way on a state of its own. -/
structure Resolver where
  answer : List Request → Request → Except Error Resource

def Resolver.resolve (resolver : Resolver) (base : Option Location) (id : ExternalId) :
    Except Error Resource :=
  resolver.answer [] ⟨base, id⟩

instance : CoeFun Resolver fun _ => Option Location → ExternalId → Except Error Resource :=
  ⟨Resolver.resolve⟩

def Location.resolveAt (base : Option Location) (reference : Text) : Except Error Location :=
  (match base with
    | some base => base.resolve reference
    | none => Location.parse reference).mapError Location.Fault.toError

def Files.load (files : Files) (path : Text) : Except Error Text :=
  match files path with
  | .text text => .ok text
  | .failed failure => .error (.resource (.unreadable path failure))
  | .unknown => .error (.resource (.unread path))

namespace Resolver

def ofFunction (answer : Option Location → ExternalId → Except Error Resource) : Resolver :=
  ⟨fun _ request => answer request.base request.id⟩

def ofState {ρ : Type} (start : ρ) (resolve : ρ → Request → Except Error Resource × ρ) :
    Resolver where
  answer asked request :=
    let state := asked.foldl (fun state earlier => (resolve state earlier).2) start
    (resolve state request).1

/-- Whether a request has the same answer whatever was asked before. -/
def IsConstant (resolver : Resolver) : Prop :=
  ∀ asked request, resolver.answer asked request = resolver request.base request.id

theorem isConstant_ofFunction (answer : Option Location → ExternalId → Except Error Resource) :
    (ofFunction answer).IsConstant := fun _ _ => rfl

def loadFile (files : Files) (limits : Limits) : Location → Except Error Text
  | .url u => .error (.resource (.remote (.url u)))
  | .path p => do
    let text ← files.load p
    (limits.checkDtdSize (Text.size text)).mapError .limitExceeded
    return text

/-- Finds texts among files; they lose their text declaration and get plain line ends. -/
def ofFiles (files : Files) (limits : Limits) : Resolver := ofFunction fun base id =>
  match id.systemId with
  | none => .error (.resource (.withoutSystemId id.publicId))
  | some system => do
    let location ← Location.resolveAt base system
    let text ← loadFile files limits location
    return ⟨location, Text.normalizeLineEndings (Text.dropDeclaration text)⟩

def ofCatalog (catalog : List (Text × Text)) : Resolver := ofFunction fun base id => do
  let location ← Location.resolveAt base (id.systemId.getD [])
  match catalog.lookup location.print with
  | some text => return ⟨location, text⟩
  | none => throw (.resource (.notListed location))

theorem isConstant_ofCatalog (catalog : List (Text × Text)) : (ofCatalog catalog).IsConstant :=
  isConstant_ofFunction _

end Resolver
end Doctype
