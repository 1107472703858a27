import Doctype.CommandLine

/-!
The program: runs the command line over the files of the system. A run that meets a file that
was not read yet is repeated with that file.
-/

namespace Doctype.Main

/-- The number of a failure of the system, which may come negated. -/
def errorNumber (code : UInt32) : UInt32 :=
  if code < 0x80000000 then code else 0 - code

def failureOfCode (code : UInt32) (message : String) : File.Failure :=
  let n := errorNumber code
  if n = 2 then .missing
  else if n = 13 then .permissionDenied
  else if n = 20 then .notDirectory
  else if n = 21 then .isDirectory
  else if n = 36 then .nameTooLong
  else .other message.toList

def failure (e : IO.Error) : File.Failure :=
  match e with
  | .noFileOrDirectory _ code _ => failureOfCode code e.toString
  | .permissionDenied _ code _ => failureOfCode code e.toString
  | .inappropriateType _ code _ => failureOfCode code e.toString
  | .invalidArgument _ code _ => failureOfCode code e.toString
  | _ => .other e.toString.toList

def readFile (path : Text) : IO File.Reading := do
  try
    let bytes ← IO.FS.readBinFile (String.ofList path)
    match File.decode bytes with
    | .ok text => return .text text
    | .error f => return .failed f
  catch e => return .failed (failure e)

/-- Runs the program over the files that it asks for; `known` are those that were read. -/
partial def runOver (known : List (Text × File.Reading)) (arguments : List Text) :
    IO CommandLine.Outcome := do
  match CommandLine.run (fun path => (known.lookup path).getD .unknown) arguments with
  | .failed (.resource (.unread path)) =>
    let reading ← readFile path
    runOver ((path, reading) :: known) arguments
  | outcome => return outcome

def fail (message : Text) : IO UInt32 := do
  IO.eprintln ("Error: " ++ String.ofList message)
  return 1

def write (xml : Text) (output : Option Text) : IO UInt32 := do
  match output with
  | none =>
    IO.print (String.ofList xml)
    return 0
  | some path =>
    try
      IO.FS.writeFile (String.ofList path) (String.ofList xml)
      return 0
    catch e => fail (failure e).message

end Doctype.Main

/-- The program: its exit status is 2 if the arguments are wrong, and 1 if it fails. -/
def main (arguments : List String) : IO UInt32 := do
  match ← Doctype.Main.runOver [] (arguments.map String.toList) with
  | .refused fault =>
    IO.eprintln ("error: " ++ String.ofList fault.message)
    return 2
  | .printed text =>
    IO.print (String.ofList text)
    return 0
  | .failed e => Doctype.Main.fail e.message
  | .analyzed xml output remarks =>
    for remark in remarks do
      IO.eprintln (String.ofList remark)
    Doctype.Main.write xml output
