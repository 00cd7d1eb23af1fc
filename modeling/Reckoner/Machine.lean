import Reckoner.Arithmetic

/-!
# The two-stack machine

A `Machine` holds the symbols that wait for their operands and the values computed so far, both top
first, and a record of its steps. `Machine.feed` gives it the symbols of an expression one by one:
an operator first applies the waiting ones that bind at least as tightly, a comma applies all that
wait in its argument, and a closing parenthesis applies all of its group and then the function in
front of it. `Machine.finish` takes the one value that must remain.
-/

namespace Reckoner

inductive Step (α : Type) where
  /-- The machine turned to a symbol. -/
  | dispatched (symbol : Symbol α)
  /-- An operator or function gave a value. -/
  | applied (symbol : Symbol α) (value : α)
  /-- A closing parenthesis dropped a mark. -/
  | discarded (symbol : Symbol α)

/-- The waiting symbols and the values, both top first, and the steps so far, the newest first. -/
structure Machine (α : Type) where
  operators : List (Symbol α)
  values : List α
  steps : List (Step α)

namespace Machine

variable {α : Type}

abbrev Action (α β : Type) := EStateM EvalError (Machine α) β

def empty : Machine α := ⟨[], [], []⟩

def note (step : Step α) : Action α Unit :=
  modify fun m => { m with steps := step :: m.steps }

def pushValue (value : α) : Action α Unit :=
  modify fun m => { m with values := value :: m.values }

def pushOperator (symbol : Symbol α) : Action α Unit :=
  modify fun m => { m with operators := symbol :: m.operators }

def setOperators (operators : List (Symbol α)) : Action α Unit :=
  modify fun m => { m with operators }

def clear : Action α Unit :=
  modify fun m => { m with operators := [], values := [] }

/-- Runs a symbol on the value stack, puts its result back on it and on record. -/
def apply (A : Arithmetic α) (symbol : Symbol α) : Action α Unit := fun m =>
  match symbol.eval A m.values with
  -- the operands that were there are gone
  | .error e values => .error e { m with values }
  | .ok none values => .ok () { m with values }
  | .ok (some value) values =>
    .ok () { m with values := value :: values, steps := .applied symbol value :: m.steps }

/-- Applies the operators at the head of `waiting`, the stack of waiting symbols, for as long as
they bind at least as tightly as `priority`. Each leaves the stack after it is applied. -/
def settleFrom (A : Arithmetic α) (priority : Nat) : List (Symbol α) → Action α Unit
  | .operator op :: waiting =>
    if priority ≤ op.priority then do
      apply A (.operator op)
      setOperators waiting
      settleFrom A priority waiting
    else return ()
  | _ => return ()

/-- Applies the operators that bind at least as tightly as `priority`. -/
def settle (A : Arithmetic α) (priority : Nat) : Action α Unit := do
  settleFrom A priority (← get).operators

/-- Takes `waiting`, the stack of waiting symbols, down to the innermost opening parenthesis,
applying the operators and dropping the commas. Each leaves the stack before it is applied. -/
def drainFrom (A : Arithmetic α) : List (Symbol α) → Action α Unit
  | [] => throw (.unmatchedParenthesis .right)
  | symbol :: waiting => do
    setOperators waiting
    match symbol with
    | .parenLeft => return ()
    | .function f => throw (.danglingFunction f)
    | .operator _ => do
      apply A symbol
      drainFrom A waiting
    | _ => do
      note (.discarded symbol)
      drainFrom A waiting

/-- Applies the function on top of the waiting symbols, if there is one there. -/
def applyFunction (A : Arithmetic α) : Action α Unit := do
  match (← get).operators with
  | .function f :: waiting =>
    apply A (.function f)
    setOperators waiting
  | _ => return ()

def closeGroup (A : Arithmetic α) : Action α Unit := do
  drainFrom A (← get).operators
  applyFunction A

/-- Fails if a function on top of the waiting symbols is not followed by its arguments. -/
def requireGroup (symbol : Symbol α) : Action α Unit := do
  match (← get).operators, symbol with
  | .function _ :: _, .parenLeft => return ()
  | .function f :: _, _ => throw (.danglingFunction f)
  | _, _ => return ()

/-- What a symbol does to the machine. -/
def dispatch (A : Arithmetic α) (symbol : Symbol α) : Action α Unit := do
  note (.dispatched symbol)
  requireGroup symbol
  match symbol with
  | .literal value | .named value => pushValue value
  | .function _ | .parenLeft => pushOperator symbol
  | .operator op => do
    settle A op.priority
    pushOperator symbol
  | .comma => do
    settle A 0
    pushOperator symbol
  | .parenRight => closeGroup A

/-- Whether `symbol` has closed the last group, so that nothing may follow. -/
def isClosedBy (m : Machine α) : Symbol α → Bool
  | .parenRight => m.operators.isEmpty
  | _ => false

/-- Dispatches tokens in order up to the first failure. A token that is no symbol fails before
anything else; then nothing may follow the parenthesis that closed the last group. -/
def feed (A : Arithmetic α) (closed : Bool) :
    List (Except EvalError (Symbol α)) → Action α Unit
  | [] => return ()
  | .error e :: _ => throw e
  | .ok symbol :: tokens => do
    if closed then throw (.unmatchedParenthesis .right)
    dispatch A symbol
    feed A ((← get).isClosedBy symbol) tokens

/-- Takes the value of the expression: no group may be open, and exactly one value may be left. -/
def finish : Action α α := fun m =>
  if m.operators.isEmpty then
    match m.values with
    | [] => .error .stackUnderflow m
    | [value] => .ok value { m with values := [] }
    | values => .error (.leftoverValues values.length) m
  else .error (.unmatchedParenthesis .left) m

def run (A : Arithmetic α) (tokens : List (Except EvalError (Symbol α))) : Action α α := do
  feed A false tokens
  finish

end Machine

end Reckoner
