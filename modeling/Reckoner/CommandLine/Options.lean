import Reckoner.Number.Numeral
import Reckoner.Blank
import Reckoner.CommandLine.ControlSequence

/-!
# Options

What can be asked on the command line, and the ways to ask wrongly. `Options` is a request that can
be carried out; a `Stop` is what ends the reading of the arguments before that.
-/

namespace Reckoner.CommandLine

inductive ValueOption where
  | file
  | define
deriving DecidableEq

inductive Flag where
  | list
  | verbose
  | version
  | help
deriving DecidableEq

/-- An option as usage errors quote it. -/
def ValueOption.usage : ValueOption → String
  | file => "--file <FILE>"
  | define => "--define <NAME=VALUE>"

/-- A flag as usage errors quote it. -/
def Flag.usage : Flag → String
  | list => "--list"
  | verbose => "--verbose..."
  | version => "--version"
  | help => "--help"

structure Options where
  /-- The variables to bind, in order. -/
  definitions : List (String × Float)
  /-- Whether the table is to be listed. -/
  list : Bool
  /-- The script to take expressions from. -/
  file : Option String
  /-- How often more detail was asked for. -/
  verbosity : Nat
  /-- The expressions among the arguments, in order. -/
  expressions : List String

def Options.none : Options := ⟨[], false, .none, 0, []⟩

/-! ## Errors -/

inductive DefinitionFault where
  /-- It has no `=`. -/
  | noEquals
  /-- What stands behind its first `=` is no number. -/
  | notNumber (value : String)
deriving DecidableEq

/-- The wording of a definition fault in `argument`. -/
def DefinitionFault.message (argument : String) : DefinitionFault → String
  | noEquals => "expected NAME=VALUE, found '" ++ argument ++ "'"
  | notNumber value => "'" ++ value ++ "' is not a number"

inductive UsageError where
  /-- An option that does not exist. -/
  | unexpectedArgument (argument : String)
  /-- A value for a flag. -/
  | unexpectedValue (value : String) (flag : Flag)
  /-- An option without its value. -/
  | missingValue (option : ValueOption)
  /-- A flag or option, given by its usage, that may be given once only. -/
  | repeated (usage : String)
  /-- A definition that cannot be read. -/
  | invalidDefinition (argument : String) (fault : DefinitionFault)
deriving DecidableEq

/-- The wording of a usage error. What is quoted from the arguments or from the usage is emphasized,
but for the fault of a definition. -/
def UsageError.message : UsageError → String
  | unexpectedArgument argument => "unexpected argument '" ++ emphasized argument ++ "' found"
  | unexpectedValue value flag =>
    "unexpected value '" ++ emphasized value ++ "' for '" ++ emphasized flag.usage ++
      "' found; no more were expected"
  | missingValue option =>
    "a value is required for '" ++ emphasized option.usage ++ "' but none was supplied"
  | repeated usage => "the argument '" ++ emphasized usage ++ "' cannot be used multiple times"
  | invalidDefinition argument fault =>
    "invalid value '" ++ emphasized argument ++ "' for '" ++
      emphasized ValueOption.define.usage ++ "': " ++ fault.message argument

inductive Stop where
  | version
  | help
  | usage (e : UsageError)
deriving DecidableEq

/-! ## Definitions -/

/-- Reads a definition: a name, `=` and a number, with blanks around both. -/
def parseDefinition (argument : String) : Except DefinitionFault (String × Float) :=
  let chars := argument.toList
  match chars.dropWhile (· ≠ '=') with
  | [] => .error .noEquals
  | _ :: value =>
    match readFloat? (trimBlanks value) with
    | some v => .ok (String.ofList (trimBlanks (chars.takeWhile (· ≠ '='))), v)
    | none => .error (.notNumber (String.ofList value))

end Reckoner.CommandLine
