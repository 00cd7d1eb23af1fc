import Reckoner.Error

/-!
# What symbols do to a stack of values

An `Arithmetic α` says what the operators and builtin functions compute on numbers of type `α`.
`Symbol.eval` runs a symbol on a stack of values, top first: it takes the operands it needs, the
last one from the top, and gives the result back without putting it on the stack. A missing operand
is a stack underflow, and the operands taken before it stay taken.
-/

namespace Reckoner

/-- The meaning of the operators and builtin functions on numbers of type `α`. -/
structure Arithmetic (α : Type) where
  operator : Operator → α → α → α
  unary : UnaryBuiltin → α → α
  binary : BinaryBuiltin → α → α → α

/-- A computation on a stack of values, top first. -/
abbrev OnValues (α : Type) := EStateM EvalError (List α)

variable {α : Type}

def pull : OnValues α α
  | [] => .error .stackUnderflow []
  | value :: rest => .ok value rest

/-- Takes two values; the one below is the left operand. -/
def pullPair : OnValues α (α × α) := do
  let right ← pull
  let left ← pull
  return (left, right)

def Builtin.call (A : Arithmetic α) : Builtin → OnValues α α
  | unary f => do return A.unary f (← pull)
  | binary f => do
    let (left, right) ← pullPair
    return A.binary f left right

def Operator.call (A : Arithmetic α) (op : Operator) : OnValues α α := do
  let (left, right) ← pullPair
  return A.operator op left right

/-- Runs a symbol on the stack. Numbers give themselves, marks give nothing. -/
def Symbol.eval (A : Arithmetic α) : Symbol α → OnValues α (Option α)
  | literal value | named value => return some value
  | parenLeft | parenRight | comma => return none
  | operator op => some <$> op.call A
  | function f => some <$> f.call A

/-! ## The operations one by one -/

@[simp] theorem pull_nil : pull ([] : List α) = .error .stackUnderflow [] := rfl

@[simp] theorem pull_cons (value : α) (rest : List α) : pull (value :: rest) = .ok value rest := rfl

@[simp] theorem pullPair_nil : pullPair ([] : List α) = .error .stackUnderflow [] := rfl

@[simp] theorem pullPair_singleton (value : α) :
    pullPair [value] = .error .stackUnderflow [] := rfl

@[simp] theorem pullPair_cons_cons (right left : α) (rest : List α) :
    pullPair (right :: left :: rest) = .ok (left, right) rest := rfl

end Reckoner
