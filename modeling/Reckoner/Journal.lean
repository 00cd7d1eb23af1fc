import Reckoner.Evaluator

/-!
# The journal of an evaluation

A `Report` can be told as a list of records: one when the evaluation starts, one for each step, and
one for the outcome. Steps are finer than the other two, which the level of a record says.
-/

namespace Reckoner

inductive Level where
  | debug
  | trace
deriving DecidableEq

def Level.name : Level → String
  | debug => "DEBUG"
  | trace => "TRACE"

structure Record where
  level : Level
  message : String
deriving DecidableEq

def Step.message : Step Float → String
  | dispatched symbol => "dispatch " ++ symbol.describe
  | applied symbol value => symbol.describe ++ " -> " ++ Layout.plain.write value
  | discarded symbol => "discard " ++ symbol.describe

namespace Report

/-- An expression as it is quoted in a journal. -/
def quoted (expression : String) : String :=
  "`" ++ expression ++ "`"

/-- The record of how an evaluation ended. -/
def ending (report : Report) : Record :=
  match report.outcome with
  | .ok value => ⟨.debug, quoted report.expression ++ " = " ++ Layout.plain.write value⟩
  | .error e => ⟨.debug, quoted report.expression ++ " failed: " ++ e.message⟩

def records (report : Report) : List Record :=
  ⟨.debug, "evaluating " ++ quoted report.expression⟩ ::
    report.steps.map (fun step => ⟨.trace, step.message⟩) ++ [report.ending]

end Report

end Reckoner
