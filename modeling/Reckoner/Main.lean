import Reckoner.CommandLine.Arguments
import Reckoner.CommandLine.Batch
import Reckoner.Ieee

/-!
# The program

Reads the arguments, and the script if the request comes to it, carries out the request and prints
what it leaves behind.
-/

namespace Reckoner.CommandLine

/-- The code of the error that a directory is read as a file. -/
def isDirectoryCode : UInt32 := 21

def readError : IO.Error → ReadError
  | .noFileOrDirectory .. => .notFound
  | .permissionDenied .. => .notPermitted
  | .inappropriateType _ code _ => if code = isDirectoryCode then .isDirectory else .notDirectory
  | .invalidArgument .. => .nameTooLong
  | e => .other (toString e)

def readScript (path : String) : IO (Except ReadError String) := do
  try
    return decodeScript (← IO.FS.readBinFile path)
  catch e =>
    return .error (readError e)

/-- Carries out the request that the arguments make. -/
def respond (arguments : List String) : IO Output := do
  match parseArguments arguments with
  | .error stop => return stop.output
  | .ok options =>
    let script ← match options.script? with
      | some path => readScript path
      | none => pure (.ok "")
    return execute .ieee options script

end Reckoner.CommandLine

/-- Prints what the request of the arguments leaves behind. -/
def main (arguments : List String) : IO UInt32 := do
  let output ← Reckoner.CommandLine.respond arguments
  (← IO.getStdout).putStr output.stdout
  (← IO.getStderr).putStr output.stderr
  return output.code.toUInt32
