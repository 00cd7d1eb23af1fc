import Reckoner.Proofs.Journal
import Reckoner.Proofs.Machine.Record
import Reckoner.Proofs.Uniformity

/-!
# What a report tells

The steps of a report can be read off its records, replayed as a postfix run, and the values on
record are the ones of that run, whether the evaluation came to an end or failed
(`SymbolTable.report_exact`). If it came to an end, every token was turned to once and in order,
everything that waited was settled once, and the value on record last is the outcome.
-/

namespace Reckoner

namespace SymbolTable

variable {table : SymbolTable} {A : Arithmetic Float} {expression : String}

theorem faithful_report (A : Arithmetic Float) (table : SymbolTable) (expression : String) :
    Step.Faithful A (table.report A expression).steps := by
  cases hs : prepare expression with
  | error e =>
    rw [report_of_error A hs]
    exact Machine.records_empty.faithful
  | ok source =>
    rw [report_eq A hs]
    exact Machine.faithful_run A (table.tokens source)

theorem complete_report {value : Float} (h : (table.report A expression).outcome = .ok value) :
    ∃ source symbols, prepare expression = .ok source ∧
      table.tokens source = symbols.map .ok ∧
      Step.Complete A symbols value (table.report A expression).steps := by
  cases hs : prepare expression with
  | error e =>
    rw [report_of_error A hs] at h
    cases h
  | ok source =>
    rw [report_eq A hs] at h ⊢
    cases hrun : Machine.run A (table.tokens source) .empty with
    | error e m =>
      rw [hrun] at h
      cases h
    | ok value' m =>
      rw [hrun] at h
      obtain rfl : value' = value := Except.ok.inj h
      obtain ⟨symbols, htokens, hcomplete⟩ := Machine.complete_run hrun
      exact ⟨source, symbols, rfl, htokens, hcomplete⟩

/-- **A report is a faithful record.** The texts of its finest records, those between the first and
the last, read as its steps. Replayed, these are a postfix run that gives the values on record, and
nothing is settled more often than it was turned to. If there is a value, then the machine turned to
each lexeme once and in order, applied each operator and function once and dropped each comma once,
and the value on record last is the outcome. -/
theorem report_exact (A : Arithmetic Float) (table : SymbolTable) (expression : String) :
    ((table.report A expression).records.filter fun record => record.level = .trace) =
        (table.report A expression).records.tail.dropLast ∧
      (table.report A expression).records.tail.dropLast.map Record.step? =
        (table.report A expression).steps.map some ∧
      Step.Faithful A (table.report A expression).steps ∧
      ∀ value, (table.report A expression).outcome = .ok value →
        (∃ source symbols, prepare expression = .ok source ∧
          (Lexeme.split source.toList).map table.classify = symbols.map .ok ∧
          Step.Complete A symbols value (table.report A expression).steps) ∧
        ∀ front symbol last back,
          (table.report A expression).steps = front ++ .applied symbol last :: back →
          back.filterMap Step.applied? = [] → last = value := by
  have faithful := faithful_report A table expression
  have finest := Report.filter_records (table.report A expression)
  rw [← Report.inner_records] at finest
  refine ⟨finest, finest ▸ Report.map_step?_records faithful, faithful, fun value h => ?_⟩
  obtain ⟨source, symbols, hs, htokens, hcomplete⟩ := complete_report h
  refine ⟨⟨source, symbols, hs, htokens, hcomplete⟩, ?_⟩
  intro front symbol last back hsteps hback
  have replays := hcomplete.replays
  rw [hsteps] at replays
  exact replays.eq_of_last hback

/-- The records of `max(1, 2 * 3)`, of which the last but one holds the outcome, and those of
`2 * sin + 5` up to its failure. -/
theorem report_exact_max :
    (standard.report .ieee "max(1, 2 * 3)").records.tail.dropLast.map Record.message =
        ["dispatch ParenLeft", "dispatch Function(Function \x7b name: \"max\", .. \x7d)",
          "dispatch ParenLeft", "dispatch Literal(1.0)", "dispatch Comma", "dispatch Literal(2.0)",
          "dispatch Operator(Mul)", "dispatch Literal(3.0)", "dispatch ParenRight",
          "Operator(Mul) -> 6", "discard Comma",
          "Function(Function \x7b name: \"max\", .. \x7d) -> 6", "dispatch ParenRight"] ∧
      (∃ symbols, Step.Complete .ieee symbols 6 (standard.report .ieee "max(1, 2 * 3)").steps) ∧
      (standard.report .ieee "2 * sin + 5").records.tail.dropLast.map Record.message =
        ["dispatch ParenLeft", "dispatch Literal(2.0)", "dispatch Operator(Mul)",
          "dispatch Function(Function \x7b name: \"sin\", .. \x7d)", "dispatch Operator(Add)"] ∧
      ∃ values, Step.Replays .ieee (standard.report .ieee "2 * sin + 5").steps [] values := by
  have outcome : (standard.report .ieee "max(1, 2 * 3)").outcome = .ok 6 := by decide +kernel
  obtain ⟨-, -, -, complete⟩ := report_exact .ieee standard "max(1, 2 * 3)"
  obtain ⟨⟨_, symbols, -, -, h⟩, -⟩ := complete 6 outcome
  obtain ⟨-, -, faithful, -⟩ := report_exact .ieee standard "2 * sin + 5"
  exact ⟨by decide +kernel, ⟨symbols, h⟩, by decide +kernel, faithful.replays⟩

end SymbolTable

end Reckoner
