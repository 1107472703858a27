import Doctype.Analysis
import Doctype.Source

/-!
The command line: the arguments as a command, and the outcome of a command over some files.
Arguments are read from left to right; the first fault or the first request for help or the
version decides.
-/

namespace Doctype.CommandLine

inductive Flag
  | document
  | system
  | title
  | roots
  | verbose
  | help
  | version
  deriving DecidableEq

namespace Flag

def ofLong? (name : Text) : Option Flag :=
  if name = "doc" then some document
  else if name = "system" then some system
  else if name = "title" then some title
  else if name = "roots" then some roots
  else if name = "verbose" then some verbose
  else if name = "help" then some help
  else if name = "version" then some version
  else none

def ofLetter? : Char → Option Flag
  | 'd' => some document
  | 's' => some system
  | 't' => some title
  | 'r' => some roots
  | 'v' => some verbose
  | 'h' => some help
  | 'V' => some version
  | _ => none

def takesValue : Flag → Bool
  | document => true
  | system => true
  | title => true
  | roots => true
  | _ => false

end Flag

inductive Fault
  | unknownOption (argument : Text)
  | valueMissing
  | valueUnneeded (option : Text)
  | repeatedOption
  | emptyPath
  | extraArgument (argument : Text)
  | inputMissing
  | twoInputs
  deriving DecidableEq

def Fault.message : Fault → Text
  | unknownOption argument => "unexpected argument '" ++ argument ++ "'"
  | valueMissing => "a value is required"
  | valueUnneeded option => "no value is allowed for '--" ++ option ++ "'"
  | repeatedOption => "an option cannot be used multiple times"
  | emptyPath => "a path must not be empty"
  | extraArgument argument => "unexpected argument '" ++ argument ++ "'"
  | inputMissing => "either --doc or --system is required"
  | twoInputs => "--doc cannot be used with --system"

structure Arguments where
  document : Option Text
  system : Option Text
  title : Option Text
  roots : List Text
  isVerbose : Bool
  output : Option Text
  deriving DecidableEq

/-- What is asked for: words about the program, or an analysis of a source. -/
inductive Command
  | help
  | version
  | analyze (kind : Source.Kind) (path : Text) (arguments : Arguments)

namespace Arguments

def empty : Arguments :=
  ⟨none, none, none, [], false, none⟩

/-- A value that may be given once. -/
def once (old : Option Text) (value : Text) : Except Fault (Option Text) :=
  if old.isSome then .error .repeatedOption else .ok (some value)

def onePath (old : Option Text) (path : Text) : Except Fault (Option Text) :=
  if path.isEmpty && old.isNone then .error .emptyPath else once old path

def set (a : Arguments) (flag : Flag) (value : Text) : Except Fault Arguments := do
  match flag with
  | .document => return { a with document := ← onePath a.document value }
  | .system => return { a with system := ← onePath a.system value }
  | .title => return { a with title := ← once a.title value }
  | .roots => return { a with roots := a.roots ++ [value] }
  | _ => return a

def setVerbose (a : Arguments) : Except Fault Arguments :=
  if a.isVerbose then .error .repeatedOption else .ok { a with isVerbose := true }

/-- Takes an argument that is no option. -/
def addOperand (a : Arguments) (operand : Text) : Except Fault Arguments :=
  if a.output.isSome then .error (.extraArgument operand)
  else if operand.isEmpty then .error .emptyPath
  else .ok { a with output := some operand }

/-- The command of all arguments, of which exactly one names a source. -/
def command (a : Arguments) : Except Fault Command :=
  match a.document, a.system with
  | some path, none => .ok (.analyze .document path a)
  | none, some path => .ok (.analyze .dtd path a)
  | none, none => .error .inputMissing
  | some _, some _ => .error .twoInputs

end Arguments

/-- What an argument leads to: a command at once, more arguments, or the value of an option. -/
inductive Step
  | decided (command : Command)
  | more (a : Arguments)
  | value (flag : Flag) (a : Arguments)

def Step.ofFlag (a : Arguments) : Flag → Except Fault Step
  | .help => .ok (.decided .help)
  | .version => .ok (.decided .version)
  | .verbose => a.setVerbose.map .more
  | flag => .ok (.value flag a)

/-- An option with a long name, in which an equals sign sets off a value. -/
def readLong (a : Arguments) (t : Text) : Except Fault Step :=
  let name := t.takeWhile (· ≠ '=')
  match Flag.ofLong? name, t.dropWhile (· ≠ '=') with
  | none, _ => .error (.unknownOption ("--".toList ++ name))
  | some flag, [] => Step.ofFlag a flag
  | some flag, _ :: value =>
    if flag.takesValue then (a.set flag value).map .more else .error (.valueUnneeded name)

/-- The text behind the letter of an option as its value. -/
def attachedValue : Text → Text
  | '=' :: value => value
  | value => value

/-- Options by their letters; what is behind the letter of one with a value is its value. -/
def readLetters (a : Arguments) : Text → Except Fault Step
  | [] => .ok (.more a)
  | c :: t =>
    match Flag.ofLetter? c with
    | none => .error (.unknownOption ['-', c])
    | some flag =>
      if flag.takesValue then
        if t.isEmpty then .ok (.value flag a) else (a.set flag (attachedValue t)).map .more
      else do
        match ← Step.ofFlag a flag with
        | .more a => readLetters a t
        | step => return step

def readArgument (a : Arguments) : Text → Except Fault Step
  | '-' :: '-' :: t => readLong a t
  | '-' :: c :: t => readLetters a (c :: t)
  | t => (a.addOperand t).map .more

/-- Whether an argument can be the value of the option in front of it: no option, or a single
hyphen. -/
def isValue : Text → Bool
  | '-' :: _ :: _ => false
  | _ => true

/-- Reads arguments behind those that `a` tells; behind two hyphens there are no options. -/
def parseFrom (a : Arguments) : List Text → Except Fault Command
  | [] => a.command
  | argument :: rest =>
    if argument = "--" then rest.foldlM Arguments.addOperand a >>= Arguments.command
    else
      match readArgument a argument with
      | .error fault => .error fault
      | .ok (.decided command) => .ok command
      | .ok (.more a) => parseFrom a rest
      | .ok (.value flag a) =>
        match rest with
        | [] => .error .valueMissing
        | value :: rest =>
          if isValue value then
            match a.set flag value with
            | .error fault => .error fault
            | .ok a => parseFrom a rest
          else .error .valueMissing

def parse (arguments : List Text) : Except Fault Command :=
  parseFrom .empty arguments

def versionText : Text :=
  "dtdanalyzer 0.1.0\n"

def helpLines : List Text :=
  ["Convert a DTD into an XML representation of its declarations",
   "",
   "Usage: dtdanalyzer [OPTIONS] <--doc <XML>|--system <DTD>> [OUT]",
   "",
   "Arguments:",
   "  [OUT]  Output file (defaults to stdout)",
   "",
   "Options:",
   "  -d, --doc <XML>      XML document whose DOCTYPE declares the DTD",
   "  -s, --system <DTD>   DTD file",
   "  -t, --title <TITLE>  Title embedded in the output",
   "  -r, --roots <ROOTS>  Whitespace-separated root elements; only declarations reachable " ++
     "from them are written",
   "  -v, --verbose        Log pipeline progress",
   "  -h, --help           Print help",
   "  -V, --version        Print version"]

def helpText : Text :=
  helpLines.flatMap (· ++ ['\n'])

inductive Outcome
  | refused (fault : Fault)
  | printed (text : Text)
  | failed (error : Error)
  | analyzed (xml : Text) (output : Option Text) (remarks : List Text)

def limits : Limits :=
  .standard

def analyze (files : Files) (kind : Source.Kind) (path : Text) (a : Arguments) :
    Except Error Analysis := do
  let source ← Source.ofFile files kind path
  let log ← source.collect (Resolver.ofFiles files limits) limits
  return Analysis.ofLog (.ofTexts a.title a.roots limits) log

/-- Runs the program. If it asks for more words, there is a remark for each thing found
wrong. -/
def run (files : Files) (arguments : List Text) : Outcome :=
  match parse arguments with
  | .error fault => .refused fault
  | .ok .help => .printed helpText
  | .ok .version => .printed versionText
  | .ok (.analyze kind path a) =>
    match analyze files kind path a with
    | .error e => .failed e
    | .ok analysis =>
      let remarks := if a.isVerbose then analysis.findings.map (·.diagnostic.print) else []
      .analyzed analysis.document.print a.output remarks

end Doctype.CommandLine
