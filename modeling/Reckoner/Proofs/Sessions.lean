import Reckoner.Journal
import Reckoner.Proofs.Uniformity

/-!
# One evaluator for many expressions

An evaluator keeps its two stacks from one run to the next, and a run that fails leaves on them
whatever it was working on. Every run clears them first, so it reports what a fresh evaluator
reports (`Evaluator.evaluate_fst`), and a session is a list of independent evaluations
(`Evaluator.evaluateAll_eq_map`). After a run with a value there is nothing to clear: the value was
the only one left, and no symbol was waiting (`Evaluator.drained_evaluate`).
-/

namespace Reckoner

namespace Machine

variable {α : Type} {A : Arithmetic α} {m m' : Machine α}

/-- The value of an expression is taken off the stack, and nothing else was left. -/
theorem drained_finish {value : α} (h : finish m = .ok value m') :
    m'.operators = [] ∧ m'.values = [] := by
  unfold finish at h
  split at h
  · next hops =>
    split at h
    · cases h
    · cases h
      exact ⟨List.isEmpty_iff.1 hops, rfl⟩
    · cases h
  · cases h

theorem drained_run {tokens : List (Except EvalError (Symbol α))} {value : α}
    (h : run A tokens m = .ok value m') : m'.operators = [] ∧ m'.values = [] := by
  change EStateM.bind (feed A false tokens) _ m = _ at h
  rw [EStateM.bind] at h
  cases hfeed : feed A false tokens m with
  | error e m₁ =>
    rw [hfeed] at h
    cases h
  | ok u m₁ =>
    rw [hfeed] at h
    exact drained_finish h

end Machine

namespace Evaluator

variable (A : Arithmetic Float)

/-- The evaluator after expressions in order. -/
def after (evaluator : Evaluator) (expressions : List String) : Evaluator :=
  expressions.foldl (fun evaluator expression => (evaluator.evaluate A expression).2) evaluator

/-- Whether nothing waits and no value is left. -/
def Drained (evaluator : Evaluator) : Prop :=
  evaluator.operators = [] ∧ evaluator.values = []

/-! ## One run -/

theorem run_eq (evaluator : Evaluator) (expression : String) :
    run A evaluator.table expression evaluator.machine =
      run A evaluator.table expression (new evaluator.table).machine := by
  cases hs : prepare expression with
  | error e => rw [run_of_error hs, run_of_error hs]
  | ok source => rw [run_of_prepare hs, run_of_prepare hs]

/-- **A run reports what it reports on fresh stacks**, whatever the stacks hold. -/
theorem evaluate_fst (evaluator : Evaluator) (expression : String) :
    (evaluator.evaluate A expression).1 = evaluator.table.report A expression := by
  rw [SymbolTable.report, evaluate, evaluate, run_eq]
  dsimp only [new]
  cases run A evaluator.table expression _ <;> rfl

theorem table_evaluate (evaluator : Evaluator) (expression : String) :
    (evaluator.evaluate A expression).2.table = evaluator.table := by
  unfold evaluate
  cases run A evaluator.table expression evaluator.machine <;> rfl

theorem drained_evaluate {evaluator : Evaluator} {expression : String} {value : Float}
    (h : evaluator.table.evaluate A expression = .ok value) :
    (evaluator.evaluate A expression).2.Drained := by
  rw [SymbolTable.evaluate, ← evaluate_fst] at h
  unfold evaluate at h ⊢
  cases hs : prepare expression with
  | error e =>
    rw [run_of_error hs] at h
    cases h
  | ok source =>
    rw [run_of_prepare hs] at h ⊢
    cases hrun : Machine.run A (evaluator.table.tokens source) .empty with
    | error e m =>
      rw [hrun] at h
      cases h
    | ok v m => exact Machine.drained_run hrun

/-! ## A session -/

/-- **A session is a list of independent evaluations.** -/
theorem evaluateAll_eq_map (evaluator : Evaluator) (expressions : List String) :
    evaluator.evaluateAll A expressions = expressions.map (evaluator.table.report A) := by
  induction expressions generalizing evaluator with
  | nil => rfl
  | cons expression expressions ih =>
    change (evaluator.evaluate A expression).1 ::
      (evaluator.evaluate A expression).2.evaluateAll A expressions = _
    rw [ih, evaluate_fst, table_evaluate, List.map_cons]

theorem table_after (evaluator : Evaluator) (expressions : List String) :
    (evaluator.after A expressions).table = evaluator.table := by
  induction expressions generalizing evaluator with
  | nil => rfl
  | cons expression expressions ih =>
    rw [after, List.foldl_cons, ← after, ih, table_evaluate]

theorem after_concat (evaluator : Evaluator) (expressions : List String) (expression : String) :
    evaluator.after A (expressions ++ [expression]) =
      ((evaluator.after A expressions).evaluate A expression).2 :=
  List.foldl_concat ..

/-- **A used evaluator is as good as a fresh one.** Whatever its stacks hold at the start, it reports
of each expression, in order, what a fresh one reports of that expression alone: outcome and
journal are the same. After every value both stacks are empty. So expressions can be left out, put
in or put in another order, and the reports of the others stay as they are. -/
theorem evaluateAll_independent (evaluator : Evaluator) (expressions : List String) :
    (∀ i : Nat, (evaluator.evaluateAll A expressions)[i]? =
      expressions[i]?.map (evaluator.table.report A)) ∧
    (evaluator.evaluateAll A expressions).map Report.outcome =
      expressions.map (evaluator.table.evaluate A) ∧
    (evaluator.evaluateAll A expressions).map Report.records =
      expressions.map (fun expression => (evaluator.table.report A expression).records) ∧
    (∀ front expression back value, expressions = front ++ expression :: back →
      evaluator.table.evaluate A expression = .ok value →
      (evaluator.after A (front ++ [expression])).Drained) ∧
    (∀ fewer : List String, fewer.Sublist expressions →
      (evaluator.evaluateAll A fewer).Sublist (evaluator.evaluateAll A expressions)) ∧
    ∀ others : List String, others.Perm expressions →
      (evaluator.evaluateAll A others).Perm (evaluator.evaluateAll A expressions) := by
  simp only [evaluateAll_eq_map]
  refine ⟨fun i => List.getElem?_map, by rw [List.map_map]; rfl, by rw [List.map_map]; rfl, ?_,
    fun fewer h => h.map _, fun others h => h.map _⟩
  intro front expression back value _ h
  rw [after_concat]
  exact drained_evaluate A (by rwa [table_after])

/-- A failure that leaves a group open and a value behind, on an evaluator that has both already,
does not reach the sum that follows. -/
theorem evaluateAll_independent_open :
    (Evaluator.evaluateAll .ieee ⟨.standard, [.comma], [7]⟩ ["1 + (2", "3 + 3"]).map
        Report.outcome = [.error (.unmatchedParenthesis .left), .ok 6] ∧
      (Evaluator.after .ieee ⟨.standard, [.comma], [7]⟩ ["1 + (2", "3 + 3"]).Drained := by
  obtain ⟨-, outcomes, -, drained, -⟩ :=
    evaluateAll_independent .ieee ⟨.standard, [.comma], [7]⟩ ["1 + (2", "3 + 3"]
  exact ⟨outcomes.trans (by decide +kernel), drained ["1 + (2"] "3 + 3" [] 6 rfl (by decide +kernel)⟩

end Evaluator

end Reckoner
