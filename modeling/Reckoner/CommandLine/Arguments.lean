import Reckoner.CommandLine.Options

/-!
# Reading the arguments

Options and operands mix in any order. A long option is `--name` or `--name=value`; behind a single
`-` stand the letters of several flags, the last of which may be an option with its value attached;
an option without an attached value takes the next argument, unless that starts with `-` itself.
Behind `--` all are operands.

A value taken from the next argument is looked at only when something else is recognised behind it,
or at the end. So a later argument that is not recognised at all is reported first.
-/

namespace Reckoner.CommandLine

/-- What has been read: the request so far, whether only operands follow, and the last option if its
value was not attached, with that value once it is there. -/
structure Progress where
  options : Options
  operandsOnly : Bool
  pending : Option (ValueOption × Option String)

abbrev Reading := Except Stop

def refuse {α : Type} (e : UsageError) : Reading α :=
  .error (.usage e)

namespace Options

def accept (options : Options) (option : ValueOption) (value : String) : Reading Options :=
  match option with
  | .file =>
    if options.file.isSome then refuse (.repeated ValueOption.file.usage)
    else if value.isEmpty then refuse (.missingValue .file)
    else .ok { options with file := some value }
  | .define =>
    match parseDefinition value with
    | .ok definition => .ok { options with definitions := options.definitions ++ [definition] }
    | .error fault => refuse (.invalidDefinition value fault)

def raise (options : Options) : Flag → Reading Options
  | .list =>
    if options.list then refuse (.repeated Flag.list.usage) else .ok { options with list := true }
  | .verbose => .ok { options with verbosity := options.verbosity + 1 }
  | .version => .error .version
  | .help => .error .help

end Options

inductive Named where
  | value (option : ValueOption)
  | flag (flag : Flag)

def long? : String → Option Named
  | "file" => some (.value .file)
  | "define" => some (.value .define)
  | "list" => some (.flag .list)
  | "verbose" => some (.flag .verbose)
  | "version" => some (.flag .version)
  | "help" => some (.flag .help)
  | _ => none

def short? : Char → Option Named
  | 'f' => some (.value .file)
  | 'D' => some (.value .define)
  | 'v' => some (.flag .verbose)
  | 'V' => some (.flag .version)
  | 'h' => some (.flag .help)
  | _ => none

namespace Progress

def start : Progress := ⟨.none, false, .none⟩

/-- Takes the value of the last option, if it was not attached. -/
def resolve (p : Progress) : Reading Progress :=
  match p.pending with
  | none => .ok p
  | some (option, none) => refuse (.missingValue option)
  | some (option, some value) => do
    return { p with options := ← p.options.accept option value, pending := none }

/-- Takes an option with its value attached. -/
def attached (p : Progress) (option : ValueOption) (value : String) : Reading Progress := do
  let p ← p.resolve
  return { p with options := ← p.options.accept option value }

/-- Takes an option whose value is still to come. -/
def await (p : Progress) (option : ValueOption) : Reading Progress := do
  let p ← p.resolve
  return { p with pending := some (option, none) }

def flag (p : Progress) (flag : Flag) : Reading Progress := do
  let p ← p.resolve
  return { p with options := ← p.options.raise flag }

def operand (p : Progress) (argument : String) : Reading Progress := do
  let p ← p.resolve
  return { p with options := { p.options with expressions := p.options.expressions ++ [argument] } }

/-- Takes a long option, given without its dashes. -/
def long (p : Progress) (chars : List Char) : Reading Progress :=
  let name := String.ofList (chars.takeWhile (· ≠ '='))
  match long? name, chars.dropWhile (· ≠ '=') with
  | none, _ => refuse (.unexpectedArgument ("--" ++ name))
  | some (.value option), [] => p.await option
  | some (.value option), _ :: value => p.attached option (String.ofList value)
  | some (.flag f), [] => p.flag f
  | some (.flag f), _ :: value => refuse (.unexpectedValue (String.ofList value) f)

/-- An attached value without the `=` that may stand in front of it. -/
def withoutEquals : List Char → List Char
  | '=' :: value => value
  | value => value

/-- Takes the letters behind a single dash. -/
def letters (p : Progress) : List Char → Reading Progress
  | [] => .ok p
  | letter :: rest =>
    match short? letter with
    | none => refuse (.unexpectedArgument (String.ofList ['-', letter]))
    | some (.flag f) => do (← p.flag f).letters rest
    | some (.value option) =>
      if rest.isEmpty then p.await option
      else p.attached option (String.ofList (withoutEquals rest))

/-- Takes an argument that is no option: the value that the last option waits for, or an operand. -/
def plain (p : Progress) (argument : String) : Reading Progress :=
  match p.pending with
  -- `resolve` looks at the value, not before something else is recognised
  | some (option, none) => .ok { p with pending := some (option, some argument) }
  | _ => p.operand argument

def take (p : Progress) (argument : String) : Reading Progress :=
  if p.operandsOnly then p.operand argument
  else match argument.toList with
    | ['-', '-'] => .ok { p with operandsOnly := true }
    | '-' :: '-' :: chars => p.long chars
    | '-' :: letter :: rest => p.letters (letter :: rest)
    | _ => p.plain argument

end Progress

def parseArguments (arguments : List String) : Reading Options := do
  let p ← arguments.foldlM Progress.take .start
  return (← p.resolve).options

end Reckoner.CommandLine
