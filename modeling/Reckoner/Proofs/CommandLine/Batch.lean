import Reckoner.CommandLine.Batch
import Reckoner.Proofs.Sessions
import Reckoner.Proofs.Table.Definition

/-!
# A request is a batch of independent evaluations

Carrying out a request has phases, and each can end it: the first definition that is refused
(`Refused`), the listing, a script that cannot be read. What is left are the expressions that were
asked for (`Requested`). Each of these is evaluated as if it were alone, and adds one line to the
output or one to the errors; the exit code tells whether any has failed (`execute_exact`). A script
is read only for a request that comes as far as that (`Options.script?_eq_some_iff`,
`execute_of_script?_eq_none`).
-/

namespace Reckoner

namespace SymbolTable

/-- `reason` is why the first refused definition is refused, those in front of it being made. -/
inductive Refused (reason : DefineError) : SymbolTable → List (String × Float) → Prop where
  | here {table : SymbolTable} {name : String} {value : Float}
      {definitions : List (String × Float)} (refused : table.define name value = .error reason) :
      Refused reason table ((name, value) :: definitions)
  | later {table table' : SymbolTable} {name : String} {value : Float}
      {definitions : List (String × Float)} (defined : table.define name value = .ok table')
      (refused : Refused reason table' definitions) :
      Refused reason table ((name, value) :: definitions)

theorem defineAll_eq_error_iff {table : SymbolTable} {definitions : List (String × Float)}
    {reason : DefineError} :
    table.defineAll definitions = .error reason ↔ Refused reason table definitions := by
  constructor
  · intro h
    induction definitions generalizing table with
    | nil => cases h
    | cons definition definitions ih =>
      obtain ⟨name, value⟩ := definition
      rw [defineAll_cons] at h
      cases defined : table.define name value with
      | error e =>
        rw [defined] at h
        cases h
        exact .here defined
      | ok table' =>
        rw [defined] at h
        exact .later defined (ih h)
  · intro h
    induction h with
    | here refused => rw [defineAll_cons, refused, Except.bind]
    | later defined _ ih => rw [defineAll_cons, defined, Except.bind, ih]

end SymbolTable

namespace CommandLine

/-- The expressions that a request asks for, with what reading its script gave. -/
inductive Requested (options : Options) (script : Except ReadError String) : List String → Prop where
  | arguments (noFile : options.file = none) (some : options.expressions ≠ []) :
      Requested options script options.expressions
  | demo (noFile : options.file = none) (none : options.expressions = []) :
      Requested options script demoExpressions
  | script {path text : String} (file : options.file = some path) (read : script = .ok text) :
      Requested options script (options.expressions ++ scriptExpressions text)

/-- The line of an outcome in the output. -/
def resultLine : Except EvalError Float → String
  | .ok value => Layout.plain.write value ++ "\n"
  | .error _ => ""

/-- The line of the outcome of an expression among the errors. -/
def errorLine (expression : String) : Except EvalError Float → String
  | .ok _ => ""
  | .error e => "Error in '" ++ expression ++ "': " ++ e.message ++ "\n"

/-! ## What evaluations leave behind -/

theorem stdout_reportOutput (verbosity : Nat) (report : Report) :
    (reportOutput verbosity report).stdout = resultLine report.outcome := by
  unfold reportOutput resultLine
  cases report.outcome <;> rfl

theorem code_reportOutput (verbosity : Nat) (report : Report) :
    (reportOutput verbosity report).code = if report.outcome.isOk then 0 else 1 := by
  unfold reportOutput
  cases report.outcome <;> rfl

theorem expression_report (A : Arithmetic Float) (table : SymbolTable) (expression : String) :
    (table.report A expression).expression = expression := by
  unfold SymbolTable.report Evaluator.evaluate
  cases Evaluator.run A (Evaluator.new table).table expression (Evaluator.new table).machine <;> rfl

section Quiet

variable {verbosity : Nat} (quiet : verbosity < 2)

include quiet

/-- No record of an evaluation is shown unless it is asked for twice. -/
theorem journal_eq_empty (report : Report) : journal verbosity report = "" := by
  have hidden : ∀ record ∈ report.records, ¬ isShown verbosity record.level = true := by
    intro record _
    cases record.level <;> simp only [isShown, decide_eq_true_eq] <;> omega
  rw [journal, List.filter_eq_nil_iff.2 hidden]
  rfl

theorem stderr_reportOutput (report : Report) :
    (reportOutput verbosity report).stderr = errorLine report.expression report.outcome := by
  unfold reportOutput errorLine
  rw [journal_eq_empty quiet]
  cases report.outcome with
  | ok value => rfl
  | error e => simp only [String.empty_append]

/-- One evaluation after the other adds its line behind what is there already. -/
theorem foldl_reportOutput (reports : List Report) (output : Output) :
    reports.foldl (fun output report => output.append (reportOutput verbosity report)) output =
      ⟨output.stdout ++ String.join (reports.map fun report => resultLine report.outcome),
        output.stderr ++
          String.join (reports.map fun report => errorLine report.expression report.outcome),
        if output.code = 0 then if reports.all fun report => report.outcome.isOk then 0 else 1
        else output.code⟩ := by
  induction reports generalizing output with
  | nil =>
    obtain ⟨stdout, stderr, code⟩ := output
    by_cases hcode : code = 0 <;> simp [hcode]
  | cons report reports ih =>
    rw [List.foldl_cons, ih, Output.append, stdout_reportOutput, stderr_reportOutput quiet,
      code_reportOutput]
    simp only [List.map_cons, String.join_cons, List.all_cons, String.append_assoc,
      Output.mk.injEq, true_and]
    by_cases hcode : output.code = 0
    · by_cases hok : report.outcome.isOk = true <;> simp [hcode, hok]
    · simp [hcode]

theorem reportsOutput_eq (reports : List Report) :
    reportsOutput verbosity reports =
      ⟨String.join (reports.map fun report => resultLine report.outcome),
        String.join (reports.map fun report => errorLine report.expression report.outcome),
        if reports.all fun report => report.outcome.isOk then 0 else 1⟩ := by
  rw [reportsOutput, foldl_reportOutput quiet, Output.success]
  simp

/-- **Evaluations on one evaluator** leave behind what independent evaluations do. -/
theorem reportsOutput_evaluateAll (A : Arithmetic Float) (table : SymbolTable)
    (expressions : List String) :
    reportsOutput verbosity ((Evaluator.new table).evaluateAll A expressions) =
      ⟨String.join (expressions.map fun expression => resultLine (table.evaluate A expression)),
        String.join (expressions.map fun expression =>
          errorLine expression (table.evaluate A expression)),
        if expressions.all fun expression => (table.evaluate A expression).isOk then 0 else 1⟩ := by
  rw [reportsOutput_eq quiet, Evaluator.evaluateAll_eq_map, List.map_map, List.map_map,
    List.all_map]
  have lines : (fun report => errorLine report.expression report.outcome) ∘ table.report A =
      fun expression => errorLine expression (table.evaluate A expression) := by
    funext expression
    rw [Function.comp_apply, expression_report, SymbolTable.evaluate]
  rw [Evaluator.new, lines]
  rfl

end Quiet

/-! ## The phases of a request -/

section Request

variable {options : Options} {script : Except ReadError String}

/-- Unless its script cannot be read, a request asks for expressions. -/
theorem requestedExpressions_eq_ok_iff {expressions : List String} :
    requestedExpressions options script = .ok expressions ↔
      Requested options script expressions := by
  unfold requestedExpressions
  constructor
  · intro h
    split at h
    · next _ noFile =>
      cases h
      split
      · next none => exact .demo noFile (List.isEmpty_iff.1 none)
      · next some => exact .arguments noFile (mt List.isEmpty_iff.2 some)
    · next file =>
      cases h
      exact .script file rfl
    · cases h
  · intro h
    cases h with
    | arguments noFile some => rw [noFile]; simp [some]
    | demo noFile none => rw [noFile, none]; rfl
    | script file read => rw [file, read]

theorem requestedExpressions_of_unreadable {path : String} {e : ReadError}
    (file : options.file = some path) (unreadable : script = .error e) :
    requestedExpressions options script =
      .error ("Failed to read the input file '" ++ path ++ "': " ++ e.message) := by
  unfold requestedExpressions
  rw [file, unreadable]

theorem exists_requested (readable : ¬ ∃ path e, options.file = some path ∧ script = .error e) :
    ∃ expressions, requestedExpressions options script = .ok expressions := by
  unfold requestedExpressions
  split
  · exact ⟨_, rfl⟩
  · exact ⟨_, rfl⟩
  · next path e file => exact absurd ⟨path, e, file, rfl⟩ readable

/-- A script is read if the definitions are accepted and no listing is asked for. -/
theorem Options.script?_eq_some_iff {path : String} :
    options.script? = some path ↔
      (¬ ∃ reason, SymbolTable.Refused reason .standard options.definitions) ∧
        options.list = false ∧ options.file = some path := by
  unfold script?
  cases defined : SymbolTable.standard.defineAll options.definitions with
  | error reason =>
    have refused := SymbolTable.defineAll_eq_error_iff.1 defined
    exact ⟨nofun, fun h => absurd ⟨reason, refused⟩ h.1⟩
  | ok table =>
    have accepted : ¬ ∃ reason, SymbolTable.Refused reason .standard options.definitions := by
      rintro ⟨reason, refused⟩
      rw [SymbolTable.defineAll_eq_error_iff.2 refused] at defined
      cases defined
    cases list : options.list with
    | true => exact ⟨nofun, fun h => absurd h.2.1 nofun⟩
    | false => exact ⟨fun h => ⟨accepted, rfl, h⟩, fun h => h.2.2⟩

/-- **A script that is not read** makes no difference. -/
theorem execute_of_script?_eq_none (A : Arithmetic Float) (h : options.script? = none)
    (script' : Except ReadError String) :
    execute A options script = execute A options script' := by
  cases defined : SymbolTable.standard.defineAll options.definitions with
  | error reason => rw [execute_of_refused A defined, execute_of_refused A defined]
  | ok table =>
    cases list : options.list with
    | true => rw [execute_of_list A defined list, execute_of_list A defined list]
    | false =>
      have noFile : options.file = none := by rwa [Options.script?, defined, list] at h
      unfold execute requestedExpressions
      rw [noFile]

/-- **What a request leaves behind.** If a definition is refused, only the reason of the first one
that is. Otherwise, if the listing is asked for, only the listing of the table that the definitions
make, whatever the script. Otherwise, if the script cannot be read, only that error. Otherwise, of
all expressions asked for, evaluated one by one as if each were alone, the values and the errors
line by line, and the exit code tells whether all have values. -/
theorem execute_exact (A : Arithmetic Float) (options : Options)
    (script : Except ReadError String) (quiet : options.verbosity < 2) :
    (∀ reason, SymbolTable.Refused reason .standard options.definitions →
      execute A options script = ⟨"", reason.message ++ "\n", 1⟩) ∧
    ((¬ ∃ reason, SymbolTable.Refused reason .standard options.definitions) →
      ∃ table, SymbolTable.standard.defineAll options.definitions = .ok table ∧
      (options.list = true → execute A options script = ⟨listing table, "", 0⟩) ∧
      (options.list = false →
        (∀ path e, options.file = some path → script = .error e →
          execute A options script =
            ⟨"", "Failed to read the input file '" ++ path ++ "': " ++ e.message ++ "\n", 1⟩) ∧
        ((¬ ∃ path e, options.file = some path ∧ script = .error e) →
          ∃ expressions, Requested options script expressions ∧
          execute A options script =
            ⟨String.join (expressions.map fun expression =>
                resultLine (table.evaluate A expression)),
              String.join (expressions.map fun expression =>
                errorLine expression (table.evaluate A expression)),
              if expressions.all fun expression => (table.evaluate A expression).isOk
              then 0 else 1⟩))) := by
  refine ⟨fun reason refused => ?_, fun accepted => ?_⟩
  · exact execute_of_refused A (SymbolTable.defineAll_eq_error_iff.2 refused)
  cases defined : SymbolTable.standard.defineAll options.definitions with
  | error reason => exact absurd ⟨reason, SymbolTable.defineAll_eq_error_iff.1 defined⟩ accepted
  | ok table =>
    refine ⟨table, rfl, execute_of_list A defined, fun noList => ⟨fun path e file unreadable => ?_,
      fun readable => ?_⟩⟩
    · exact execute_of_unreadable A defined noList
        (requestedExpressions_of_unreadable file unreadable)
    · obtain ⟨expressions, requested⟩ := exists_requested readable
      refine ⟨expressions, requestedExpressions_eq_ok_iff.1 requested, ?_⟩
      rw [execute_of_requested A defined noList requested]
      exact reportsOutput_evaluateAll quiet A table expressions

end Request

/-- A refused definition comes before a listing, a listing before a script, and a script that cannot
be read before every expression. Of an argument and two lines of a script, with a comment between
them, one fails; the definition holds for all three. -/
theorem execute_exact_script :
    execute .ieee ⟨[("k", 2), ("2x", 1), ("+", 0)], true, some "in", 0, ["k"]⟩ (.error .notFound) =
        ⟨"", "Invalid variable name '2x'.\n", 1⟩ ∧
      (∃ table, SymbolTable.standard.defineAll [("k", 2)] = .ok table ∧
        execute .ieee ⟨[("k", 2)], true, some "in", 0, ["k"]⟩ (.error .notFound) =
          ⟨listing table, "", 0⟩) ∧
      execute .ieee ⟨[("k", 2)], false, some "in", 0, ["k"]⟩ (.error .notFound) =
        ⟨"", "Failed to read the input file 'in': No such file or directory (os error 2)\n", 1⟩ ∧
      execute .ieee ⟨[("k", 2)], false, some "in", 1, ["k * 3"]⟩ (.ok "k +\n# k\n k - 4") =
        ⟨"6\n-2\n", "Error in 'k +': " ++ EvalError.stackUnderflow.message ++ "\n", 1⟩ := by
  have accepted : ¬ ∃ reason, SymbolTable.Refused reason .standard [("k", 2)] := by
    rintro ⟨reason, refused⟩
    cases SymbolTable.defineAll_eq_error_iff.2 refused
  refine ⟨?_, ?_, ?_, ?_⟩
  · have refused : SymbolTable.Refused (.invalidName "2x") .standard
        [("k", 2), ("2x", 1), ("+", 0)] := SymbolTable.defineAll_eq_error_iff.1 rfl
    exact ((execute_exact .ieee _ _ (by decide)).1 _ refused).trans rfl
  · obtain ⟨table, defined, listed, -⟩ := (execute_exact .ieee
      ⟨[("k", 2)], true, some "in", 0, ["k"]⟩ (.error .notFound) (by decide)).2 accepted
    exact ⟨table, defined, listed rfl⟩
  · obtain ⟨table, -, -, evaluated⟩ := (execute_exact .ieee
      ⟨[("k", 2)], false, some "in", 0, ["k"]⟩ (.error .notFound) (by decide)).2 accepted
    exact ((evaluated rfl).1 "in" .notFound rfl rfl).trans rfl
  · obtain ⟨table, defined, -, evaluated⟩ := (execute_exact .ieee
      ⟨[("k", 2)], false, some "in", 1, ["k * 3"]⟩ (.ok "k +\n# k\n k - 4") (by decide)).2 accepted
    obtain ⟨expressions, requested, output⟩ := (evaluated rfl).2 (by rintro ⟨_, _, _, ⟨⟩⟩)
    obtain rfl := Except.ok.inj defined
    obtain rfl := Except.ok.inj (requestedExpressions_eq_ok_iff.2 requested)
    exact output.trans (by decide +kernel)

end CommandLine

end Reckoner
