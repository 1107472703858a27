import Doctype.Content.Token
import Doctype.File.Tree
import Doctype.Limits
import Doctype.Location
import Doctype.Markup.Fault

/-!
The errors that end an operation, by what caused them. `Error.message` is the displayed form,
which begins with the kind of the error.
-/

namespace Doctype

structure Attribute.ListError where
  element : Text
  body : Text
  error : Lexer.Error
  deriving DecidableEq

def Attribute.ListError.message (e : Attribute.ListError) : Text :=
  "element '" ++ e.element ++ "': " ++ e.error.message ++ " in '" ++ Text.trim e.body ++ "'"

inductive ResourceFault
  | unreadable (path : Text) (failure : File.Failure)
  | unread (path : Text)
  | remote (location : Location)
  | withoutSystemId (publicId : Option Text)
  | notLocal (url : Url)
  | notListed (location : Location)
  deriving DecidableEq

def ResourceFault.message : ResourceFault → Text
  | unreadable path failure => "failed to read '" ++ path ++ "': " ++ failure.message
  | unread path => "'" ++ path ++ "' was not read"
  | remote location => "remote resources are not supported: " ++ location.print
  | withoutSystemId publicId =>
    "cannot resolve public identifier '" ++ publicId.getD [] ++ "' without a system identifier"
  | notLocal url => "cannot convert '" ++ url.print ++ "' to a local path"
  | notListed location => "not in map: " ++ location.print

inductive SourceFault
  | markup (label : Text) (line : Nat) (fault : Markup.Fault)
  | other (reason : Text)
  deriving DecidableEq

def SourceFault.message : SourceFault → Text
  | markup label line fault => label ++ ", line " ++ Text.decimal line ++ ": " ++ fault.message
  | other reason => reason

inductive ReachabilityFault
  | noRoots
  | rootsUndeclared (roots : List Text)
  deriving DecidableEq

def ReachabilityFault.message : ReachabilityFault → Text
  | noRoots => "no root elements given"
  | rootsUndeclared roots =>
    "none of the root elements is declared: " ++ Text.join ", ".toList roots

inductive WriteFault
  | full
  deriving DecidableEq

def WriteFault.message : WriteFault → Text
  | full => "no room"

/-- An error that ends an operation. The end of a document type that a source announces before
the end of its input is one that its user expects. -/
inductive Error
  | contentModel (error : Content.Error)
  | attributeList (error : Attribute.ListError)
  | recursiveEntity (name : Text) (active : List Text)
  | eventSource (fault : SourceFault)
  | endOfDtd
  | reachability (fault : ReachabilityFault)
  | resource (fault : ResourceFault)
  | limitExceeded (excess : Limits.Excess)
  | io (fault : WriteFault)
  | xml (fault : WriteFault)
  | url (fault : Url.Fault)
  deriving DecidableEq

def Error.message : Error → Text
  | contentModel e => "content model error: " ++ e.message
  | attributeList e => "attribute list error: " ++ e.message
  | recursiveEntity name active =>
    "entity error: recursive reference to entity '" ++ name ++ "' " ++ Markup.cycle name active
  | eventSource f => "event source error: " ++ f.message
  | endOfDtd => "end of DTD"
  | reachability f => "reachability error: " ++ f.message
  | resource f => "resource error: " ++ f.message
  | limitExceeded e => "limit exceeded: " ++ e.message
  | io f => "I/O error: " ++ f.message
  | xml f => "XML error: I/O error: " ++ f.message
  | url f => "URL error: " ++ f.message

def Location.Fault.toError : Location.Fault → Error
  | .url fault => .url fault
  | .notLocal u => .resource (.notLocal u)

end Doctype
