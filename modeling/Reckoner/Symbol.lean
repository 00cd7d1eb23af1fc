import Reckoner.Number.Layout

/-!
# Symbols

The words of the language once they are recognised: numbers, names bound to numbers, the three
marks, the four operators and the eighteen builtin functions. A symbol is generic in the type of its
numbers, so that a computation can be followed without looking at them.
-/

namespace Reckoner

inductive Operator where
  | add
  | sub
  | mul
  | div
deriving DecidableEq

namespace Operator

/-- Every operator, in the order in which tables list them. -/
def all : List Operator := [add, sub, mul, div]

/-- The character that spells the operator. -/
def char : Operator → Char
  | add => '+'
  | sub => '-'
  | mul => '*'
  | div => '/'

/-- The operator's name in a record of an evaluation. -/
def title : Operator → String
  | add => "Add"
  | sub => "Sub"
  | mul => "Mul"
  | div => "Div"

def priority : Operator → Nat
  | add | sub => 8
  | mul | div => 9

end Operator

inductive UnaryBuiltin where
  | sin
  | cos
  | tan
  | sinh
  | cosh
  | tanh
  | exp
  | ln
  | sqrt
  | abs
  | floor
  | ceil
  | round
deriving DecidableEq

namespace UnaryBuiltin

def all : List UnaryBuiltin :=
  [sin, cos, tan, sinh, cosh, tanh, exp, ln, sqrt, abs, floor, ceil, round]

def name : UnaryBuiltin → String
  | sin => "sin"
  | cos => "cos"
  | tan => "tan"
  | sinh => "sinh"
  | cosh => "cosh"
  | tanh => "tanh"
  | exp => "exp"
  | ln => "ln"
  | sqrt => "sqrt"
  | abs => "abs"
  | floor => "floor"
  | ceil => "ceil"
  | round => "round"

end UnaryBuiltin

inductive BinaryBuiltin where
  | pow
  | log
  | min
  | max
  | hypot
deriving DecidableEq

namespace BinaryBuiltin

def all : List BinaryBuiltin := [pow, log, min, max, hypot]

def name : BinaryBuiltin → String
  | pow => "pow"
  | log => "log"
  | min => "min"
  | max => "max"
  | hypot => "hypot"

end BinaryBuiltin

inductive Builtin where
  | unary (f : UnaryBuiltin)
  | binary (f : BinaryBuiltin)
deriving DecidableEq

namespace Builtin

def all : List Builtin :=
  UnaryBuiltin.all.map unary ++ BinaryBuiltin.all.map binary

def name : Builtin → String
  | unary f => f.name
  | binary f => f.name

/-- The function as it is written in a record of an evaluation. -/
def describe (f : Builtin) : String :=
  "Function \x7b name: \"" ++ f.name ++ "\", .. \x7d"

end Builtin

/-- A recognised word, over numbers of type `α`. Under `==` numbers compare as their type compares
them, so a symbol that holds a double which is not a number differs from itself. -/
inductive Symbol (α : Type) where
  /-- A number written out. -/
  | literal (value : α)
  /-- A variable, with the number its name is bound to. -/
  | named (value : α)
  | parenLeft
  | parenRight
  | comma
  | operator (op : Operator)
  | function (f : Builtin)
deriving BEq, DecidableEq

namespace Symbol

variable {α : Type}

def kind : Symbol α → String
  | literal _ => "literal"
  | named _ => "variable"
  | parenLeft => "left parenthesis"
  | parenRight => "right parenthesis"
  | comma => "comma"
  | operator _ => "operator"
  | function _ => "function"

/-- The priority of whatever never competes with an operator. -/
def topPriority : Nat := 10

def priority : Symbol α → Nat
  | operator op => op.priority
  | _ => topPriority

/-- Whether a symbol of one character ends the word before it. -/
def isDelimiter : Symbol α → Bool
  | operator _ | comma | parenLeft | parenRight => true
  | _ => false

/-- A symbol as it is written in a record of an evaluation. -/
def describe : Symbol Float → String
  | literal value => "Literal(" ++ Layout.tagged.write value ++ ")"
  | named value => "Variable(" ++ Layout.tagged.write value ++ ")"
  | parenLeft => "ParenLeft"
  | parenRight => "ParenRight"
  | comma => "Comma"
  | operator op => "Operator(" ++ op.title ++ ")"
  | function f => "Function(" ++ f.describe ++ ")"

end Symbol

end Reckoner
