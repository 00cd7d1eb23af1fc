import Mathlib.Data.List.Forall2
import Reckoner.Ieee
import Reckoner.Journal
import Reckoner.Proofs.Evaluation
import Reckoner.Proofs.Machine.Image
import Reckoner.Proofs.OperatorStack

/-!
# What does not depend on numbers

Two tables with the same names, and two expressions with the same words but for the numbers written
in them, have evaluations that go the same way (`Built.evaluate_uniform`). Both have a value or both
fail for the same reason, and the records of their steps are the same, but for the numbers printed
there (`AlikeText`). So no number, infinite or none at all, makes an evaluation fail.

The words of such expressions become the same symbols but for their numbers
(`Built.map_forget_tokens`), and a run does not look at those (`Machine.mapResult_run`).
-/

namespace Reckoner

/-! ## What differs in numbers alone -/

/-- A word that is read as a number. -/
def Lexeme.IsNumeral (lexeme : Lexeme) : Prop :=
  lexeme.chars.head?.any Char.isDigit = true ∧ ∃ value, readFloat? lexeme.chars = some value

/-- Lexemes that are the same, or that are both numbers. -/
inductive Lexeme.Alike : Lexeme → Lexeme → Prop where
  | same (lexeme : Lexeme) : Alike lexeme lexeme
  | numerals {lexeme lexeme' : Lexeme} (h : lexeme.IsNumeral) (h' : lexeme'.IsNumeral) :
      Alike lexeme lexeme'

/-- Expressions that have the same lexemes but for their numbers, or that are both blank. -/
inductive AlikeExpressions (expression expression' : String) : Prop where
  | lexemes {source source' : String} (hs : prepare expression = .ok source)
      (hs' : prepare expression' = .ok source')
      (h : List.Forall₂ Lexeme.Alike (Lexeme.split source.toList) (Lexeme.split source'.toList))
  | blank (hs : prepare expression = .error .emptyExpression)
      (hs' : prepare expression' = .error .emptyExpression)

/-- Texts that are the same once the numbers printed in them are erased. -/
inductive AlikeText : String → String → Prop where
  | same (text : String) : AlikeText text text
  | number (layout : Layout) (value value' : Float) :
      AlikeText (layout.write value) (layout.write value')
  | append {first first' second second' : String} (h : AlikeText first first')
      (h' : AlikeText second second') : AlikeText (first ++ second) (first' ++ second')

/-- Records of the same level that are the same once the numbers printed in them are erased. -/
structure Record.Alike (record record' : Record) : Prop where
  level : record.level = record'.level
  message : AlikeText record.message record'.message

/-! ## Texts of steps -/

theorem Symbol.alikeText_describe {symbol symbol' : Symbol Float}
    (h : symbol.map forget = symbol'.map forget) : AlikeText symbol.describe symbol'.describe := by
  cases symbol with
  | literal value =>
    cases symbol' with
    | literal value' => exact .append (.append (.same _) (.number _ value value')) (.same _)
    | named _ | parenLeft | parenRight | comma | operator _ | function _ => cases h
  | named value =>
    cases symbol' with
    | named value' => exact .append (.append (.same _) (.number _ value value')) (.same _)
    | literal _ | parenLeft | parenRight | comma | operator _ | function _ => cases h
  | parenLeft | parenRight | comma | operator _ | function _ =>
    cases symbol' <;> cases h
    exact .same _

theorem Step.alikeText_message {step step' : Step Float} (h : step.map forget = step'.map forget) :
    AlikeText step.message step'.message := by
  cases step with
  | dispatched symbol =>
    cases step' with
    | dispatched symbol' =>
      exact .append (.same _) (Symbol.alikeText_describe (Step.dispatched.inj h))
    | applied _ _ | discarded _ => cases h
  | applied symbol value =>
    cases step' with
    | applied symbol' value' =>
      have described := Symbol.alikeText_describe (Step.applied.inj h).1
      exact .append (.append described (.same _)) (.number _ value value')
    | dispatched _ | discarded _ => cases h
  | discarded symbol =>
    cases step' with
    | discarded symbol' =>
      exact .append (.same _) (Symbol.alikeText_describe (Step.discarded.inj h))
    | dispatched _ | applied _ _ => cases h

/-- The records between the first and the last one are those of the steps. -/
theorem Report.inner_records (report : Report) :
    report.records.tail.dropLast = report.steps.map fun step => ⟨.trace, step.message⟩ := by
  unfold records
  rw [List.cons_append, List.tail_cons, List.dropLast_concat]

/-- Steps that differ in their numbers alone have records that do. -/
theorem Report.alike_inner_records {report report' : Report}
    (h : report.steps.map (Step.map forget) = report'.steps.map (Step.map forget)) :
    List.Forall₂ Record.Alike report.records.tail.dropLast report'.records.tail.dropLast := by
  rw [← List.forall₂_eq_eq_eq, List.forall₂_map_left_iff, List.forall₂_map_right_iff] at h
  rw [inner_records, inner_records, List.forall₂_map_left_iff, List.forall₂_map_right_iff]
  exact h.imp fun _ _ same => ⟨rfl, Step.alikeText_message same⟩

theorem Machine.outcome_mapResult {α β γ δ : Type} (f : α → β) (g : γ → δ)
    (result : EStateM.Result EvalError (Machine α) γ) :
    outcome (mapResult f g result) = (outcome result).map g := by
  cases result <;> rfl

theorem Machine.left_mapResult {α β γ δ : Type} (f : α → β) (g : γ → δ)
    (result : EStateM.Result EvalError (Machine α) γ) :
    left (mapResult f g result) = (left result).map f := by
  cases result <;> rfl

namespace SymbolTable

variable {table table' : SymbolTable}

/-! ## Tokens that differ in numbers alone -/

namespace Built

variable (built : table.Built) (built' : table'.Built)
  (names : ∀ name, (table.lookup name).isSome = (table'.lookup name).isSome)

include built built' names

/-- Tables with the same names have the same symbols but for the numbers of variables. -/
theorem map_forget_lookup (name : String) :
    (table.lookup name).map (Symbol.map forget) = (table'.lookup name).map (Symbol.map forget) := by
  have bound := names name
  cases hl : table.lookup name with
  | none =>
    rw [hl] at bound
    rw [Option.isSome_eq_false_iff.1 bound.symm |> Option.isNone_iff_eq_none.1]
  | some symbol =>
    rw [hl] at bound
    obtain ⟨symbol', hl'⟩ := Option.isSome_iff_exists.1 bound.symm
    rw [hl']
    -- a symbol that is no variable is in both tables, so neither can have a variable in its place
    by_cases hs : ∃ value, symbol = .named value
    · obtain ⟨value, rfl⟩ := hs
      by_cases hs' : ∃ value', symbol' = .named value'
      · obtain ⟨value', rfl⟩ := hs'
        rfl
      · have back := built'.lookup_of_ne_named built (not_exists.1 hs') hl'
        rw [hl] at back
        cases back
        rfl
    · have forth := built.lookup_of_ne_named built' (not_exists.1 hs) hl
      rw [hl'] at forth
      cases forth
      rfl

/-- Lexemes that are the same but for their numbers are such tokens. -/
theorem map_forget_classify {lexeme lexeme' : Lexeme} (h : lexeme.Alike lexeme') :
    (table.classify lexeme).map (Symbol.map forget) =
      (table'.classify lexeme').map (Symbol.map forget) := by
  cases h with
  | numerals h h' =>
    obtain ⟨digit, value, hv⟩ := h
    obtain ⟨digit', value', hv'⟩ := h'
    rw [classify_of_digit digit, classify_of_digit digit', hv, hv']
    rfl
  | same =>
    cases digit : lexeme.chars.head?.any Char.isDigit with
    | true => rw [classify_of_digit digit, classify_of_digit digit]
    | false =>
      have looked := built.map_forget_lookup built' names lexeme.text
      rw [classify_of_not_digit digit, classify_of_not_digit digit]
      cases hl : table.lookup lexeme.text with
      | none =>
        rw [hl] at looked
        rw [Option.map_eq_none_iff.1 looked.symm]
      | some symbol =>
        rw [hl] at looked
        obtain ⟨symbol', hl', same⟩ := Option.map_eq_some_iff.1 looked.symm
        rw [hl']
        exact congrArg Except.ok same.symm

theorem map_forget_tokens {source source' : String}
    (h : List.Forall₂ Lexeme.Alike (Lexeme.split source.toList) (Lexeme.split source'.toList)) :
    (table.tokens source).map (Except.map (Symbol.map forget)) =
      (table'.tokens source').map (Except.map (Symbol.map forget)) := by
  rw [tokens, tokens, ← List.forall₂_eq_eq_eq, List.forall₂_map_left_iff,
    List.forall₂_map_left_iff, List.forall₂_map_right_iff, List.forall₂_map_right_iff]
  exact h.imp fun _ _ alike => built.map_forget_classify built' names alike

end Built

/-! ## Evaluations -/

/-- What is reported of a run. -/
theorem report_eq (A : Arithmetic Float) {expression source : String}
    (hs : prepare expression = .ok source) :
    table.report A expression =
      ⟨expression, (Machine.left (Machine.run A (table.tokens source) .empty)).steps.reverse,
        Machine.outcome (Machine.run A (table.tokens source) .empty)⟩ := by
  unfold report Evaluator.evaluate
  rw [Evaluator.run_of_prepare hs, Evaluator.new]
  cases Machine.run A (table.tokens source) .empty <;> rfl

/-- What is reported of a blank expression. -/
theorem report_of_error (A : Arithmetic Float) {expression : String} {e : EvalError}
    (hs : prepare expression = .error e) :
    table.report A expression = ⟨expression, [], .error e⟩ := by
  unfold report Evaluator.evaluate
  rw [Evaluator.run_of_error hs]
  rfl

/-- Evaluations of tokens that are the same but for their numbers end alike and take the same
steps but for their numbers. -/
theorem map_forget_report {expression expression' source source' : String}
    (hs : prepare expression = .ok source) (hs' : prepare expression' = .ok source')
    (same : (table.tokens source).map (Except.map (Symbol.map forget)) =
      (table'.tokens source').map (Except.map (Symbol.map forget))) (A A' : Arithmetic Float) :
    (table.evaluate A expression).map forget = (table'.evaluate A' expression').map forget ∧
      (table.report A expression).steps.map (Step.map forget) =
        (table'.report A' expression').steps.map (Step.map forget) := by
  have runs := Machine.mapResult_run same A A'
  rw [evaluate, evaluate, report_eq A hs, report_eq A' hs']
  constructor
  · have ends := congrArg Machine.outcome runs
    rwa [Machine.outcome_mapResult, Machine.outcome_mapResult] at ends
  · have machines := congrArg (fun result => (Machine.left result).steps) runs
    simp only [Machine.left_mapResult] at machines
    rw [List.map_reverse, List.map_reverse]
    exact congrArg List.reverse machines

/-- Two outcomes that are the same but for their values. -/
theorem values_or_same_error {outcome outcome' : Except EvalError Float}
    (h : outcome.map forget = outcome'.map forget) :
    (∃ value value', outcome = .ok value ∧ outcome' = .ok value') ∨
      ∃ e, outcome = .error e ∧ outcome' = .error e := by
  match outcome, outcome', h with
  | .ok value, .ok value', _ => exact .inl ⟨value, value', rfl, rfl⟩
  | .error e, .error e', h =>
    cases h
    exact .inr ⟨e, rfl, rfl⟩

/-- **Control does not depend on numbers.** With tables of the same names, expressions that have the
same lexemes but for their numbers both have values or both fail for the same reason. The records of
their steps, those between the first and the last, are the same but for the numbers in them. -/
theorem Built.evaluate_uniform (built : table.Built) (built' : table'.Built)
    (names : ∀ name, (table.lookup name).isSome = (table'.lookup name).isSome)
    {expression expression' : String} (h : AlikeExpressions expression expression')
    (A A' : Arithmetic Float) :
    ((∃ value value', table.evaluate A expression = .ok value ∧
        table'.evaluate A' expression' = .ok value') ∨
      ∃ e, table.evaluate A expression = .error e ∧ table'.evaluate A' expression' = .error e) ∧
    List.Forall₂ Record.Alike (table.report A expression).records.tail.dropLast
      (table'.report A' expression').records.tail.dropLast := by
  cases h with
  | blank hs hs' =>
    have steps : (table.report A expression).steps.map (Step.map forget) =
        (table'.report A' expression').steps.map (Step.map forget) := by
      rw [report_of_error A hs, report_of_error A' hs']
    refine ⟨.inr ⟨.emptyExpression, ?_, ?_⟩, Report.alike_inner_records steps⟩
    · rw [evaluate, report_of_error A hs]
    · rw [evaluate, report_of_error A' hs']
  | lexemes hs hs' h =>
    have same := built.map_forget_tokens built' names h
    obtain ⟨outcomes, steps⟩ := map_forget_report hs hs' same A A'
    exact ⟨values_or_same_error outcomes, Report.alike_inner_records steps⟩

/-- A variable that is bound to zero makes a quotient of zero by zero, and the run stays the
same. -/
theorem evaluate_uniform_zero :
    ∃ table, standard.define "x" 0 = .ok table ∧
      (∃ value, table.evaluate .ieee "0 / x" = .ok value) ∧
      List.Forall₂ Record.Alike (standard.report .ieee "8/x").records.tail.dropLast
        (table.report .ieee "0 / x").records.tail.dropLast := by
  obtain ⟨table, defined⟩ : ∃ table, standard.define "x" 0 = .ok table := ⟨_, rfl⟩
  have bound : (standard.lookup "x").isSome = true := by decide +kernel
  have hs : prepare "8/x" = .ok "(8/x)" := rfl
  have hs' : prepare "0 / x" = .ok "(0/x)" := rfl
  have eight : (Lexeme.word ['8']).IsNumeral := ⟨rfl, 8, by decide +kernel⟩
  have zero : (Lexeme.word ['0']).IsNumeral := ⟨rfl, 0, by decide +kernel⟩
  have alike : AlikeExpressions "8/x" "0 / x" := .lexemes hs hs'
    (.cons (.same _) (.cons (.numerals eight zero)
      (.cons (.same _) (.cons (.same _) (.cons (.same _) .nil)))))
  obtain ⟨outcomes, records⟩ := Built.evaluate_uniform .standard (.define .standard defined)
    (isSome_lookup_define defined bound) alike .ieee .ieee
  have quotient : standard.evaluate .ieee "8/x" = .ok 0.8 := by decide +kernel
  refine ⟨table, defined, ?_, records⟩
  rcases outcomes with ⟨-, value, -, h⟩ | ⟨e, h, -⟩
  · exact ⟨value, h⟩
  · rw [quotient] at h
    cases h

end SymbolTable

end Reckoner
