import Reckoner.Machine
import Reckoner.Token

/-!
# Evaluating expressions

`Evaluator.evaluate` runs an expression on a table and reports what it did: every step and the
outcome. The evaluator keeps the two stacks of its last run, and every run begins by clearing them.
`SymbolTable.evaluate` is one run on stacks of its own.
-/

namespace Reckoner

/-- What an evaluation did, its steps in order, and how it ended. -/
structure Report where
  expression : String
  steps : List (Step Float)
  outcome : Except EvalError Float

/-- A table, and the stacks that the last run left behind. -/
structure Evaluator where
  table : SymbolTable
  operators : List (Symbol Float)
  values : List Float

namespace Evaluator

def new (table : SymbolTable) : Evaluator := ⟨table, [], []⟩

/-- The machine that a run starts on, with the stacks as they are. -/
def machine (evaluator : Evaluator) : Machine Float :=
  ⟨evaluator.operators, evaluator.values, []⟩

/-- The evaluator after a run that ended in `m`. -/
def leave (evaluator : Evaluator) (m : Machine Float) : Evaluator :=
  { evaluator with operators := m.operators, values := m.values }

/-- One run of an expression on a table. What an earlier run left on the stacks is cleared first,
also when the expression is blank. -/
def run (A : Arithmetic Float) (table : SymbolTable) (expression : String) :
    Machine.Action Float Float := do
  Machine.clear
  match prepare expression with
  | .error e => throw e
  | .ok source => Machine.run A (table.tokens source)

def evaluate (A : Arithmetic Float) (evaluator : Evaluator) (expression : String) :
    Report × Evaluator :=
  match run A evaluator.table expression evaluator.machine with
  | .ok value m => (⟨expression, m.steps.reverse, .ok value⟩, evaluator.leave m)
  | .error e m => (⟨expression, m.steps.reverse, .error e⟩, evaluator.leave m)

def evaluateAll (A : Arithmetic Float) (evaluator : Evaluator) : List String → List Report
  | [] => []
  | expression :: rest =>
    let (report, evaluator) := evaluator.evaluate A expression
    report :: evaluator.evaluateAll A rest

/-! ## Runs do not see the stacks that they start on -/

section Run

variable {A : Arithmetic Float} {table : SymbolTable} {expression : String}

theorem run_of_prepare {source : String} (hs : prepare expression = .ok source)
    (evaluator : Evaluator) :
    run A table expression evaluator.machine = Machine.run A (table.tokens source) .empty := by
  unfold run
  rw [hs]
  rfl

theorem run_of_error {e : EvalError} (hs : prepare expression = .error e)
    (evaluator : Evaluator) : run A table expression evaluator.machine = .error e .empty := by
  unfold run
  rw [hs]
  rfl

end Run

end Evaluator

namespace SymbolTable

/-- The report of one evaluation on fresh stacks. -/
def report (A : Arithmetic Float) (table : SymbolTable) (expression : String) : Report :=
  ((Evaluator.new table).evaluate A expression).1

/-- The outcome of one evaluation on fresh stacks. -/
def evaluate (A : Arithmetic Float) (table : SymbolTable) (expression : String) :
    Except EvalError Float :=
  (table.report A expression).outcome

end SymbolTable

end Reckoner
