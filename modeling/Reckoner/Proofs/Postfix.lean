import Reckoner.Arithmetic

/-!
# Postfix programs

A postfix program is a list of symbols, run from left to right on a stack of values (`Postfix.run`).
Every symbol takes as many values as its arity says and puts back its results (`Symbol.eval_of_le`,
`Symbol.act_of_le`), and it fails only for want of values (`Symbol.eval_of_lt`, `Symbol.act_of_lt`).
So a program leaves alone what lies below the values that it needs (`Postfix.run_frame`): if it
leaves one value on the empty stack, it puts that value on top of any other.
-/

namespace Reckoner

variable {α : Type} {A : Arithmetic α}

/-! ## One symbol -/

namespace Symbol

/-- The values after a symbol took its operands and put back its result. -/
def act (A : Arithmetic α) (symbol : Symbol α) (values : List α) : Except EvalError (List α) :=
  match symbol.eval A values with
  | .ok none rest => .ok rest
  | .ok (some value) rest => .ok (value :: rest)
  | .error e _ => .error e

/-- How many values a symbol takes. -/
def arity : Symbol α → Nat
  | operator _ | function (.binary _) => 2
  | function (.unary _) => 1
  | _ => 0

/-- What a symbol puts back for its operands, which are given top first. -/
def results (A : Arithmetic α) : Symbol α → List α → List α
  | literal value, _ | named value, _ => [value]
  | operator op, [right, left] => [A.operator op left right]
  | function (.unary f), [value] => [A.unary f value]
  | function (.binary f), [right, left] => [A.binary f left right]
  | _, _ => []

/-- A symbol has one result at most. -/
theorem toList_head?_results (A : Arithmetic α) (symbol : Symbol α) (operands : List α) :
    (symbol.results A operands).head?.toList = symbol.results A operands := by
  unfold results
  split <;> rfl

/-- With enough values a symbol takes its operands and gives its result. -/
theorem eval_of_le : ∀ {symbol : Symbol α} {values : List α}, symbol.arity ≤ values.length →
    symbol.eval A values =
      .ok (symbol.results A (values.take symbol.arity)).head? (values.drop symbol.arity)
  | literal _, _, _ | named _, _, _ | parenLeft, _, _ | parenRight, _, _ | comma, _, _ => rfl
  | operator _, _ :: _ :: _, _ => rfl
  | function (.unary _), _ :: _, _ => rfl
  | function (.binary _), _ :: _ :: _, _ => rfl
  | operator _, [], h | operator _, [_], h => by simp [arity] at h
  | function (.unary _), [], h => by simp [arity] at h
  | function (.binary _), [], h | function (.binary _), [_], h => by simp [arity] at h

/-- With too few values a symbol fails, and takes those that are there. -/
theorem eval_of_lt : ∀ {symbol : Symbol α} {values : List α}, values.length < symbol.arity →
    symbol.eval A values = .error .stackUnderflow []
  | operator _, [], _ | operator _, [_], _ => rfl
  | function (.unary _), [], _ => rfl
  | function (.binary _), [], _ | function (.binary _), [_], _ => rfl
  | literal _, _, h | named _, _, h | parenLeft, _, h | parenRight, _, h | comma, _, h => by
    simp [arity] at h
  | operator _, _ :: _ :: _, h | function (.binary _), _ :: _ :: _, h => by
    simp only [arity, List.length_cons] at h
    omega
  | function (.unary _), _ :: _, h => by simp [arity] at h

/-- With enough values a symbol replaces its operands by its results. -/
theorem act_of_le {symbol : Symbol α} {values : List α} (h : symbol.arity ≤ values.length) :
    symbol.act A values =
      .ok (symbol.results A (values.take symbol.arity) ++ values.drop symbol.arity) := by
  rw [act, eval_of_le h, ← toList_head?_results]
  cases (symbol.results A (values.take symbol.arity)).head? <;> rfl

/-- With too few values a symbol fails. -/
theorem act_of_lt {symbol : Symbol α} {values : List α} (h : values.length < symbol.arity) :
    symbol.act A values = .error .stackUnderflow := by
  rw [act, eval_of_lt h]

/-- A symbol fails only for want of values. -/
theorem act_error {symbol : Symbol α} {values : List α} {e : EvalError}
    (h : symbol.act A values = .error e) : e = .stackUnderflow := by
  rcases Nat.lt_or_ge values.length symbol.arity with hlt | hle
  · rw [act_of_lt hlt] at h
    cases h
    rfl
  · rw [act_of_le hle] at h
    cases h

/-- A symbol that succeeds does the same above any further values. -/
theorem act_frame {symbol : Symbol α} {values rest : List α} (h : symbol.act A values = .ok rest)
    (base : List α) : symbol.act A (values ++ base) = .ok (rest ++ base) := by
  rcases Nat.lt_or_ge values.length symbol.arity with hlt | hle
  · rw [act_of_lt hlt] at h
    cases h
  · rw [act_of_le hle] at h
    cases h
    rw [act_of_le (by simp only [List.length_append]; omega), List.take_append_of_le_length hle,
      List.drop_append_of_le_length hle, List.append_assoc]

end Symbol

/-! ## Programs -/

namespace Postfix

/-- Runs a program on a stack of values, top first. -/
def run (A : Arithmetic α) : List (Symbol α) → List α → Except EvalError (List α)
  | [], values => .ok values
  | symbol :: program, values => (symbol.act A values).bind (run A program)

@[simp] theorem run_nil (values : List α) : run A [] values = .ok values := rfl

@[simp] theorem run_cons (symbol : Symbol α) (program : List (Symbol α)) (values : List α) :
    run A (symbol :: program) values = (symbol.act A values).bind (run A program) := rfl

theorem run_singleton (symbol : Symbol α) (values : List α) :
    run A [symbol] values = symbol.act A values := by
  rw [run_cons]
  cases symbol.act A values <;> rfl

theorem run_append (first second : List (Symbol α)) (values : List α) :
    run A (first ++ second) values = (run A first values).bind (run A second) := by
  induction first generalizing values with
  | nil => rfl
  | cons symbol first ih =>
    simp only [List.cons_append, run_cons]
    cases symbol.act A values with
    | error e => rfl
    | ok rest => exact ih rest

/-- A program fails only for want of values. -/
theorem run_error {program : List (Symbol α)} {values : List α} {e : EvalError}
    (h : run A program values = .error e) : e = .stackUnderflow := by
  induction program generalizing values with
  | nil => cases h
  | cons symbol program ih =>
    rw [run_cons] at h
    cases hs : symbol.act A values with
    | error e' =>
      rw [hs] at h
      cases h
      exact Symbol.act_error hs
    | ok rest =>
      rw [hs] at h
      exact ih h

/-- **A program that succeeds does the same above any further values.** -/
theorem run_frame {program : List (Symbol α)} {values rest : List α}
    (h : run A program values = .ok rest) (base : List α) :
    run A program (values ++ base) = .ok (rest ++ base) := by
  induction program generalizing values with
  | nil =>
    cases h
    rfl
  | cons symbol program ih =>
    rw [run_cons] at h ⊢
    cases hs : symbol.act A values with
    | error e =>
      rw [hs] at h
      cases h
    | ok next =>
      rw [hs] at h
      rw [Symbol.act_frame hs base]
      exact ih h

end Postfix

end Reckoner
