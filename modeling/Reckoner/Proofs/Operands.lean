import Reckoner.Ieee
import Reckoner.Proofs.Postfix

/-!
# What a symbol takes off the stack

No symbol declares how many operands it has: it pulls them one by one, and whatever lies deeper on
the stack belongs to someone else. Still its arity is all that matters (`Symbol.eval_eq_ok_iff`,
`Symbol.eval_eq_error_iff`). A symbol runs exactly if its operands are there, takes these and no
others, and does the same whatever lies below (`Symbol.eval_append`).
-/

namespace Reckoner

namespace Symbol

variable {α : Type} {A : Arithmetic α} {symbol : Symbol α} {values rest : List α}

theorem arity_le_two : ∀ symbol : Symbol α, symbol.arity ≤ 2
  | literal _ | named _ | parenLeft | parenRight | comma => Nat.zero_le 2
  | function (.unary _) => Nat.le_succ 1
  | operator _ | function (.binary _) => Nat.le_refl 2

/-- **A symbol runs on its operands**, which are on top, and leaves what lies below them. -/
theorem eval_eq_ok_iff {result : Option α} : symbol.eval A values = .ok result rest ↔
    ∃ operands, operands.length = symbol.arity ∧ values = operands ++ rest ∧
      result = (symbol.results A operands).head? := by
  constructor
  · intro h
    rcases Nat.lt_or_ge values.length symbol.arity with few | enough
    · rw [eval_of_lt few] at h
      cases h
    · rw [eval_of_le enough] at h
      cases h
      exact ⟨values.take symbol.arity, List.length_take_of_le enough,
        (List.take_append_drop _ _).symm, rfl⟩
  · rintro ⟨operands, length, rfl, rfl⟩
    have enough : symbol.arity ≤ (operands ++ rest).length := by
      rw [List.length_append]
      omega
    rw [eval_of_le enough, ← length, List.take_left, List.drop_left]

/-- **A symbol fails for want of operands**, and then leaves no value at all. -/
theorem eval_eq_error_iff {e : EvalError} : symbol.eval A values = .error e rest ↔
    values.length < symbol.arity ∧ e = .stackUnderflow ∧ rest = [] := by
  constructor
  · intro h
    rcases Nat.lt_or_ge values.length symbol.arity with few | enough
    · rw [eval_of_lt few] at h
      cases h
      exact ⟨few, rfl, rfl⟩
    · rw [eval_of_le enough] at h
      cases h
  · rintro ⟨few, rfl, rfl⟩
    exact eval_of_lt few

theorem exists_eval_iff :
    (∃ result rest, symbol.eval A values = .ok result rest) ↔ symbol.arity ≤ values.length := by
  constructor
  · rintro ⟨result, rest, h⟩
    obtain ⟨operands, length, rfl, -⟩ := eval_eq_ok_iff.1 h
    rw [← length, List.length_append]
    exact Nat.le_add_right _ _
  · intro enough
    exact ⟨_, _, eval_of_le enough⟩

/-- A symbol that runs does the same above any further values. -/
theorem eval_append {result : Option α} (h : symbol.eval A values = .ok result rest)
    (below : List α) : symbol.eval A (values ++ below) = .ok result (rest ++ below) := by
  obtain ⟨operands, length, rfl, rfl⟩ := eval_eq_ok_iff.1 h
  exact eval_eq_ok_iff.2 ⟨operands, length, List.append_assoc _ _ _, rfl⟩

theorem eval_operator (A : Arithmetic α) (op : Operator) (left right : α) (below : List α) :
    (operator op).eval A (right :: left :: below) = .ok (some (A.operator op left right)) below :=
  eval_of_le (Nat.le_add_left 2 below.length)

theorem eval_binary (A : Arithmetic α) (f : BinaryBuiltin) (first second : α) (below : List α) :
    (function (.binary f)).eval A (second :: first :: below) =
      .ok (some (A.binary f first second)) below :=
  eval_of_le (Nat.le_add_left 2 below.length)

/-- **What a symbol does to the values.** It has an arity, which is two at most. It runs exactly if
there are as many values as that. Then it takes these off the top, gives a result that depends on
nothing else, and leaves what lies below them. Otherwise it fails for want of values, and leaves
none. Further values below change nothing. Of two operands the deeper one is the left operand of an
operator and the first of a function: the base of a power, and the number that a logarithm is of. -/
theorem eval_exact (A : Arithmetic α) (symbol : Symbol α) :
    symbol.arity ≤ 2 ∧
    (∀ values, (∃ result rest, symbol.eval A values = .ok result rest) ↔
      symbol.arity ≤ values.length) ∧
    (∀ values result rest, symbol.eval A values = .ok result rest ↔
      ∃ operands, operands.length = symbol.arity ∧ values = operands ++ rest ∧
        result = (symbol.results A operands).head?) ∧
    (∀ values e rest, symbol.eval A values = .error e rest ↔
      values.length < symbol.arity ∧ e = .stackUnderflow ∧ rest = []) ∧
    (∀ values result rest below, symbol.eval A values = .ok result rest →
      symbol.eval A (values ++ below) = .ok result (rest ++ below)) ∧
    (∀ op left right below, symbol = operator op →
      symbol.eval A (right :: left :: below) = .ok (some (A.operator op left right)) below) ∧
    (∀ f first second below, symbol = function (.binary f) →
      symbol.eval A (second :: first :: below) = .ok (some (A.binary f first second)) below) ∧
    (∀ base degree below, (function (.binary .pow)).eval .ieee (degree :: base :: below) =
      .ok (some (Binary64.pow base degree)) below) ∧
    ∀ x base below, (function (.binary .log)).eval .ieee (base :: x :: below) =
      .ok (some (Binary64.ln x / Binary64.ln base)) below := by
  refine ⟨arity_le_two symbol, fun _ => exists_eval_iff, fun _ _ _ => eval_eq_ok_iff,
    fun _ _ _ => eval_eq_error_iff, fun _ _ _ below h => eval_append h below, ?_, ?_,
    eval_binary .ieee .pow, eval_binary .ieee .log⟩
  · rintro op left right below rfl
    exact eval_operator A op left right below
  · rintro f first second below rfl
    exact eval_binary A f first second below

/-- The power of 2 and 10, with 10 on top, leaves the value below them, and any below that. -/
theorem eval_exact_pow :
    (function (.binary .pow)).eval .ieee [10, 2, 7] = .ok (some 1024) [7] ∧
      (function (.binary .pow)).eval .ieee [10, 2, 7, 3] = .ok (some 1024) [7, 3] := by
  obtain ⟨-, -, -, -, deeper, -, order, -, -⟩ := eval_exact .ieee (function (.binary .pow))
  have power : Arithmetic.ieee.binary .pow 2 10 = 1024 := by decide +kernel
  have run := order .pow 2 10 [7] rfl
  rw [power] at run
  exact ⟨run, deeper _ _ _ [3] run⟩

end Symbol

end Reckoner
