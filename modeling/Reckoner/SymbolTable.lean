import Reckoner.Lexeme
import Std.Data.TreeMap

/-!
# Symbol tables

A `SymbolTable` says what words stand for. `SymbolTable.standard` has the marks, the operators, the
builtin functions and three variables; `SymbolTable.define` binds further variables or binds one
anew. It accepts exactly the names that could come out of an expression as one word and do not
already stand for something else.
-/

namespace Reckoner

structure SymbolTable where
  entries : Std.TreeMap String (Symbol Float)

namespace SymbolTable

/-- The variables of every table, until they are bound anew. -/
def standardVariables : List (String × Float) :=
  [("x", 10), ("pi", 3.141592653589793), ("e", 2.718281828459045)]

def standardEntries : List (String × Symbol Float) :=
  [("(", .parenLeft), (")", .parenRight), (",", .comma)] ++
    Operator.all.map (fun op => (op.char.toString, .operator op)) ++
    Builtin.all.map (fun f => (f.name, .function f)) ++
    standardVariables.map (fun (name, value) => (name, .named value))

def standard : SymbolTable :=
  ⟨.ofList standardEntries⟩

def lookup (table : SymbolTable) (name : String) : Option (Symbol Float) :=
  table.entries[name]?

def size (table : SymbolTable) : Nat :=
  table.entries.size

def isEmpty (table : SymbolTable) : Bool :=
  table.entries.isEmpty

/-- All entries, in the order of their names. -/
def symbols (table : SymbolTable) : List (String × Symbol Float) :=
  table.entries.toList

/-- Whether a character ends the word before it, being a mark or an operator of the table. -/
def isDelimiter (table : SymbolTable) (c : Char) : Bool :=
  (table.lookup c.toString).any Symbol.isDelimiter

/-- The character of a name that has only one. -/
def singleChar? (name : String) : Option Char :=
  match name.toList with
  | [c] => some c
  | _ => none

/-- The characters that end the word before them, in ascending order. -/
def delimiters (table : SymbolTable) : List Char :=
  table.symbols.filterMap fun (name, symbol) =>
    if symbol.isDelimiter then singleChar? name else none

/-- Whether an expression can mention `name` as one word that is no number: it has a first character
which is no digit, and no character that is removed or ends a word. -/
def admits (table : SymbolTable) (name : List Char) : Bool :=
  name.head?.any (fun c => !c.isDigit) && name.all fun c => !isBlank c && !table.isDelimiter c

/-- Binds `name` to `value`, whether it is new or a variable already. -/
def define (table : SymbolTable) (name : String) (value : Float) :
    Except DefineError SymbolTable :=
  match table.lookup name with
  | none | some (.named _) =>
    if table.admits name.toList then .ok ⟨table.entries.insert name (.named value)⟩
    else .error (.invalidName name)
  | some _ => .error (.reserved name)

/-- Binds names in order, up to the first that is refused. -/
def defineAll (table : SymbolTable) (definitions : List (String × Float)) :
    Except DefineError SymbolTable :=
  definitions.foldlM (fun table (name, value) => table.define name value) table

theorem defineAll_cons (table : SymbolTable) (name : String) (value : Float)
    (definitions : List (String × Float)) :
    table.defineAll ((name, value) :: definitions) =
      (table.define name value).bind fun table' => table'.defineAll definitions :=
  rfl

end SymbolTable

end Reckoner
