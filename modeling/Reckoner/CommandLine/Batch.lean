import Reckoner.CommandLine.Options
import Reckoner.CommandLine.Script
import Reckoner.Journal

/-!
# Carrying out a request

`execute` binds the variables, and then either lists the table or evaluates the expressions: those
among the arguments first, those of the script after them. An expression that fails does not keep
the others from being evaluated, but shows in the exit code.
-/

namespace Reckoner.CommandLine

structure Output where
  stdout : String
  stderr : String
  code : Nat
deriving DecidableEq

namespace Output

/-- Only a text, and success. -/
def success (text : String) : Output := ⟨text, "", 0⟩

/-- Only an error, and failure. -/
def failure (message : String) : Output := ⟨"", message ++ "\n", 1⟩

/-- One output behind another; the first failure counts. -/
def append (first second : Output) : Output :=
  ⟨first.stdout ++ second.stdout, first.stderr ++ second.stderr,
    if first.code = 0 then second.code else first.code⟩

end Output

/-! ## The listing -/

/-- A name with the blanks that fill its column. -/
def nameColumn (name : String) : String :=
  name ++ String.ofList (List.replicate (8 - name.length) ' ')

/-- The line of an entry in a listing: name, kind, and the value of a variable. -/
def entryLine : String × Symbol Float → String
  | (name, symbol) =>
    let value := match symbol with
      | .named value => " = " ++ Layout.plain.write value
      | _ => ""
    nameColumn name ++ " " ++ symbol.kind ++ value ++ "\n"

def listing (table : SymbolTable) : String :=
  String.join (table.symbols.map entryLine)

/-! ## The journal -/

/-- The name of what writes the journal. -/
def journalSource : String := "stackeval::interpreter::evaluator::core"

/-- Whether records of a level are shown at a verbosity. -/
def isShown (verbosity : Nat) : Level → Bool
  | .debug => 2 ≤ verbosity
  | .trace => 3 ≤ verbosity

/-- A text whose lines but the first are indented. -/
def indented (text : String) : String :=
  String.ofList (text.toList.flatMap fun c => if c = '\n' then "\n    ".toList else [c])

def recordLine (record : Record) : String :=
  visible ("[" ++ record.level.name ++ " " ++ journalSource ++ "] " ++ indented record.message ++
    "\n")

/-- The journal of an evaluation as far as it is shown. -/
def journal (verbosity : Nat) (report : Report) : String :=
  String.join ((report.records.filter fun record => isShown verbosity record.level).map recordLine)

/-! ## Expressions -/

/-- What the evaluation of one expression leaves behind. -/
def reportOutput (verbosity : Nat) (report : Report) : Output :=
  let told := journal verbosity report
  match report.outcome with
  | .ok value => ⟨Layout.plain.write value ++ "\n", told, 0⟩
  | .error e => ⟨"", told ++ "Error in '" ++ report.expression ++ "': " ++ e.message ++ "\n", 1⟩

/-- What evaluations leave behind one after the other. -/
def reportsOutput (verbosity : Nat) (reports : List Report) : Output :=
  reports.foldl (fun output report => output.append (reportOutput verbosity report)) (.success "")

inductive ReadError where
  | notFound
  | notPermitted
  | notDirectory
  | isDirectory
  | nameTooLong
  | notUtf8
  | other (description : String)

def ReadError.message : ReadError → String
  | notFound => "No such file or directory (os error 2)"
  | notPermitted => "Permission denied (os error 13)"
  | notDirectory => "Not a directory (os error 20)"
  | isDirectory => "Is a directory (os error 21)"
  | nameTooLong => "File name too long (os error 36)"
  | notUtf8 => "stream did not contain valid UTF-8"
  | other description => description

def decodeScript (bytes : ByteArray) : Except ReadError String :=
  match String.fromUTF8? bytes with
  | some text => .ok text
  | none => .error .notUtf8

/-- The expressions that are evaluated when nothing is asked for. -/
def demoExpressions : List String :=
  ["sin(x - sin(2 * pow(1 + 3 + 4.88 / 45 - 9, 0.33 - x)) + sin(1 + 3.1415 / x))", "3 + 3",
    "0.0 -1.0"]

/-- The expressions of a request, or the error of its script. `script` is what reading the script
gave, if there is one. -/
def requestedExpressions (options : Options) (script : Except ReadError String) :
    Except String (List String) :=
  match options.file, script with
  | none, _ => .ok (if options.expressions.isEmpty then demoExpressions else options.expressions)
  | some _, .ok text => .ok (options.expressions ++ scriptExpressions text)
  | some path, .error e =>
    .error ("Failed to read the input file '" ++ path ++ "': " ++ e.message)

/-- The script that has to be read for a request: none if a definition is refused, or the listing is
asked for. -/
def Options.script? (options : Options) : Option String :=
  match SymbolTable.standard.defineAll options.definitions with
  | .error _ => .none
  | .ok _ => if options.list then .none else options.file

def execute (A : Arithmetic Float) (options : Options) (script : Except ReadError String) :
    Output :=
  match SymbolTable.standard.defineAll options.definitions with
  | .error e => .failure e.message
  | .ok table =>
    if options.list then .success (listing table)
    else match requestedExpressions options script with
      | .error message => .failure message
      | .ok expressions =>
        reportsOutput options.verbosity ((Evaluator.new table).evaluateAll A expressions)

section Phases

variable (A : Arithmetic Float) {options : Options} {script : Except ReadError String}

theorem execute_of_refused {e : DefineError}
    (refused : SymbolTable.standard.defineAll options.definitions = .error e) :
    execute A options script = .failure e.message := by
  unfold execute
  rw [refused]

variable {table : SymbolTable}
  (defined : SymbolTable.standard.defineAll options.definitions = .ok table)

include defined

theorem execute_of_list (list : options.list = true) :
    execute A options script = .success (listing table) := by
  unfold execute
  rw [defined, list]
  rfl

theorem execute_of_unreadable {message : String} (noList : options.list = false)
    (unreadable : requestedExpressions options script = .error message) :
    execute A options script = .failure message := by
  unfold execute
  rw [defined, noList, unreadable]
  rfl

theorem execute_of_requested {expressions : List String} (noList : options.list = false)
    (requested : requestedExpressions options script = .ok expressions) :
    execute A options script =
      reportsOutput options.verbosity ((Evaluator.new table).evaluateAll A expressions) := by
  unfold execute
  rw [defined, noList, requested]
  rfl

end Phases

/-! ## Ending early -/

def versionText : String := "stackeval 0.1.0\n"

/-- How the program is called: its purpose, its usage, and what each argument does. -/
def helpText : String :=
  "Infix arithmetic evaluator built on an operator stack and a value stack\n\n" ++
  "Usage: stackeval [OPTIONS] [EXPRESSIONS]...\n\n" ++
  "Arguments:\n" ++
  "  [EXPRESSIONS]...  Expressions to evaluate, in order\n\n" ++
  "Options:\n" ++
  "  -f, --file <FILE>          Reads expressions from a file, one per line. " ++
    "Blank lines and lines starting with `#` are skipped\n" ++
  "  -D, --define <NAME=VALUE>  Binds an extra variable, for example `-D rate=0.5`\n" ++
  "      --list                 Lists every known symbol and exits\n" ++
  "  -v, --verbose...           Raises the log level; repeat for more detail. " ++
    "`RUST_LOG` takes precedence\n" ++
  "  -h, --help                 Print help\n" ++
  "  -V, --version              Print version\n"

/-- What the program leaves behind when the arguments end it. -/
def Stop.output : Stop → Output
  | version => .success versionText
  | help => .success helpText
  | usage e =>
    ⟨"", visible ("error: " ++ e.message ++ "\n\nFor more information, try '" ++
      emphasized "--help" ++ "'.\n"), 2⟩

end Reckoner.CommandLine
