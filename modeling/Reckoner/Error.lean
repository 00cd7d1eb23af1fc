import Reckoner.Symbol

/-!
# Why an expression or a definition is refused

`EvalError` has one constructor for each reason why an expression has no value, `DefineError` one
for each reason why a name cannot be bound. Their wording is in the two `message` functions.
-/

namespace Reckoner

inductive Paren where
  | left
  | right
deriving DecidableEq

def Paren.char : Paren → Char
  | left => '('
  | right => ')'

inductive EvalError where
  /-- A word that is neither a number nor in the table. -/
  | unknownSymbol (token : String)
  /-- An operator or a function with too few operands, or an expression with none at all. -/
  | stackUnderflow
  /-- A parenthesis without its partner. -/
  | unmatchedParenthesis (paren : Paren)
  /-- A function that no parenthesis follows. -/
  | danglingFunction (f : Builtin)
  /-- More than one value at the end. -/
  | leftoverValues (count : Nat)
  /-- Nothing but blanks. -/
  | emptyExpression
deriving DecidableEq

def EvalError.message : EvalError → String
  | unknownSymbol token => "Unknown symbol '" ++ token ++ "'."
  | stackUnderflow =>
    "Not enough values on the stack. Check the number of arguments and parentheses."
  | unmatchedParenthesis paren => "Unmatched parenthesis '" ++ paren.char.toString ++ "'."
  | danglingFunction f =>
    "Function '" ++ f.name ++ "' must be followed by a parenthesized argument list."
  | leftoverValues count =>
    "Malformed expression: " ++ toString count ++ " values remain where one was expected."
  | emptyExpression => "Empty expression."

inductive DefineError where
  /-- A name that no expression could ever mention. -/
  | invalidName (name : String)
  /-- The spelling of a mark, an operator or a function. -/
  | reserved (name : String)
deriving DecidableEq

def DefineError.message : DefineError → String
  | invalidName name => "Invalid variable name '" ++ name ++ "'."
  | reserved name => "Symbol '" ++ name ++ "' is reserved and cannot be redefined."

/-! ## Outcomes

An outcome is a value or one of these errors; two outcomes can be compared if both parts can. -/

instance decidableEqExcept {ε α : Type} [DecidableEq ε] [DecidableEq α] :
    DecidableEq (Except ε α)
  | .ok a, .ok b =>
    if h : a = b then isTrue (congrArg Except.ok h) else isFalse fun heq => h (Except.ok.inj heq)
  | .error e, .error e' =>
    if h : e = e' then isTrue (congrArg Except.error h)
    else isFalse fun heq => h (Except.error.inj heq)
  | .ok _, .error _ | .error _, .ok _ => isFalse nofun

end Reckoner
