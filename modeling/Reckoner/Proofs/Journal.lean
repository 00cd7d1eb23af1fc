import Reckoner.Journal
import Reckoner.Proofs.Machine.Record
import Reckoner.Proofs.Number.RoundTrip

/-!
# A journal can be read

The record of a step is a text: `dispatch` and a symbol, a symbol and the value that it gave with an
arrow between them, or `discard` and a mark. `Step.read?` reads such a text, and finds the step that
it was written for (`Step.read?_message`): neither the kind of the step nor its symbol nor a bit of
its numbers is lost. So what a journal tells can be taken from its texts alone
(`Report.map_step?_records`).
-/

namespace Reckoner

/-- What stands in a text between `front` at its beginning and `back` at its end. -/
def between? (front back : String) (text : List Char) : Option (List Char) :=
  (front.toList.isPrefixOf? text).bind back.toList.isSuffixOf?

theorem between?_append (front back : String) (inner : List Char) :
    between? front back (front.toList ++ inner ++ back.toList) = some inner := by
  rw [between?, List.append_assoc, List.isPrefixOf?_eq_some_iff_append_eq.2 rfl, Option.bind_some,
    List.isSuffixOf?_eq_some_iff_append_eq]

theorem between?_enclosed (front inner back : String) :
    between? front back (front ++ inner ++ back).toList = some inner.toList := by
  rw [String.toList_append, String.toList_append, between?_append]

theorem between?_front (front inner : String) :
    between? front "" (front ++ inner).toList = some inner.toList := by
  have := between?_enclosed front inner ""
  rwa [String.append_empty] at this

/-! ## Symbols -/

namespace Builtin

/-- Reads a function in a record. -/
def read? (text : List Char) : Option Builtin :=
  (between? "Function \x7b name: \"" "\", .. \x7d" text).bind fun name =>
    all.find? fun f => f.name.toList = name

theorem find?_name (f : Builtin) : (all.find? fun other => other.name.toList = f.name.toList) =
    some f := by
  rcases f with f | f
  · cases f <;> rfl
  · cases f <;> rfl

theorem read?_describe (f : Builtin) : read? f.describe.toList = some f := by
  unfold read? describe
  rw [between?_enclosed, Option.bind_some, find?_name]

end Builtin

namespace Symbol

/-- What the marks and the operators are called in a record. -/
def titles : List (String × Symbol Float) :=
  [("ParenLeft", parenLeft), ("ParenRight", parenRight), ("Comma", comma),
    ("Operator(Add)", operator .add), ("Operator(Sub)", operator .sub),
    ("Operator(Mul)", operator .mul), ("Operator(Div)", operator .div)]

/-- Reads a symbol in a record. -/
def read? (text : List Char) : Option (Symbol Float) :=
  match between? "Literal(" ")" text, between? "Variable(" ")" text,
    between? "Function(" ")" text with
  | some number, _, _ => (readFloat? number).map literal
  | none, some number, _ => (readFloat? number).map named
  | none, none, some f => (Builtin.read? f).map function
  | none, none, none => (titles.find? fun (title, _) => title.toList = text).map Prod.snd

/-- **A symbol can be read** where it is described. -/
theorem read?_describe (symbol : Symbol Float) : read? symbol.describe.toList = some symbol := by
  cases symbol with
  | literal value =>
    unfold read?
    rw [describe, between?_enclosed]
    dsimp only
    rw [readFloat?_write]
    rfl
  | named value =>
    have literal (text : String) :
        between? "Literal(" ")" ("Variable(" ++ text ++ ")").toList = none := by
      rw [String.toList_append, String.toList_append]
      rfl
    unfold read?
    rw [describe, literal, between?_enclosed]
    dsimp only
    rw [readFloat?_write]
    rfl
  | function f =>
    have apart (text : String) :
        between? "Literal(" ")" ("Function(" ++ text ++ ")").toList = none ∧
          between? "Variable(" ")" ("Function(" ++ text ++ ")").toList = none := by
      rw [String.toList_append, String.toList_append]
      exact ⟨rfl, rfl⟩
    unfold read?
    rw [describe, (apart _).1, (apart _).2, between?_enclosed]
    dsimp only
    rw [Builtin.read?_describe]
    rfl
  | parenLeft | parenRight | comma => rfl
  | operator op => cases op <;> rfl

end Symbol

/-! ## Records -/

namespace Step

/-- Reads a symbol and the value that it gave, with an arrow between them. -/
def readApplied? (text : List Char) : Option (Step Float) := do
  let symbol ← between? "" " -" (text.takeWhile (· ≠ '>')) >>= Symbol.read?
  let value ← between? "> " "" (text.dropWhile (· ≠ '>')) >>= readFloat?
  return applied symbol value

/-- Reads a step in a record. -/
def read? (text : List Char) : Option (Step Float) :=
  match between? "dispatch " "" text, between? "discard " "" text with
  | some symbol, _ => (Symbol.read? symbol).map dispatched
  | none, some symbol => (Symbol.read? symbol).map discarded
  | none, none => readApplied? text

end Step

/-- The step that a record tells of, if it tells of one. -/
def Record.step? (record : Record) : Option (Step Float) :=
  match record.level with
  | .debug => none
  | .trace => Step.read? record.message.toList

theorem Builtin.arrow_notMem_name (f : Builtin) : f.name.toList.all (· ≠ '>') = true := by
  rcases f with f | f
  · cases f <;> rfl
  · cases f <;> rfl

/-- What can be applied has no arrow in its description. -/
theorem Symbol.arrow_notMem_describe : ∀ {symbol : Symbol Float}, symbol.isApplicable = true →
    symbol.describe.toList.all (· ≠ '>') = true
  | .operator op, _ => by cases op <;> rfl
  | .function f, _ => by
    unfold describe Builtin.describe
    simp only [String.toList_append, List.all_append, f.arrow_notMem_name]
    rfl

theorem Symbol.exists_describe : ∀ {symbol : Symbol Float}, symbol.isApplicable = true →
    ∃ title, symbol.describe.toList = "Operator(".toList ++ title ∨
      symbol.describe.toList = "Function(".toList ++ title
  | .operator op, _ => by
    rw [describe, String.toList_append, String.toList_append, List.append_assoc]
    exact ⟨_, .inl rfl⟩
  | .function f, _ => by
    rw [describe, String.toList_append, String.toList_append, List.append_assoc]
    exact ⟨_, .inr rfl⟩

namespace Step

theorem readApplied?_message {symbol : Symbol Float} (h : symbol.isApplicable = true)
    (value : Float) :
    readApplied? (applied symbol value).message.toList = some (applied symbol value) := by
  -- the first `>` of the text is the head of the arrow
  have text : (applied symbol value).message.toList =
      (symbol.describe.toList ++ " -".toList) ++ ("> " ++ Layout.plain.write value).toList := by
    rw [message]
    simp
  have front : ∀ c ∈ symbol.describe.toList ++ " -".toList, decide (c ≠ '>') = true := by
    refine List.all_eq_true.1 ?_
    rw [List.all_append, Symbol.arrow_notMem_describe h]
    rfl
  have described : between? "" " -" (symbol.describe.toList ++ " -".toList) =
      some symbol.describe.toList := between?_append "" " -" symbol.describe.toList
  have arrow : ("> " ++ Layout.plain.write value).toList =
      '>' :: ' ' :: (Layout.plain.write value).toList := String.toList_append
  unfold readApplied?
  rw [text, List.takeWhile_append_of_pos front, List.dropWhile_append_of_pos front, arrow,
    List.takeWhile_cons_of_neg (by decide), List.dropWhile_cons_of_neg (by decide), ← arrow,
    List.append_nil, described, between?_front]
  change (Symbol.read? symbol.describe.toList >>= fun symbol =>
    readFloat? (Layout.plain.write value).toList >>= fun value => some (applied symbol value)) = _
  rw [Symbol.read?_describe, readFloat?_write]
  rfl

/-- **A step can be read** from its record. -/
theorem read?_message {step : Step Float}
    (h : ∀ symbol value, step = applied symbol value → symbol.isApplicable = true) :
    read? step.message.toList = some step := by
  cases step with
  | dispatched symbol =>
    unfold read?
    rw [message, between?_front]
    dsimp only
    rw [Symbol.read?_describe]
    rfl
  | discarded symbol =>
    have dispatch : between? "dispatch " "" ("discard " ++ symbol.describe).toList = none := by
      rw [String.toList_append]
      rfl
    unfold read?
    rw [message, dispatch, between?_front]
    dsimp only
    rw [Symbol.read?_describe]
    rfl
  | applied symbol value =>
    have applicable := h symbol value rfl
    -- a description begins with a capital, the other two kinds of record do not
    have apart : between? "dispatch " "" (applied symbol value).message.toList = none ∧
        between? "discard " "" (applied symbol value).message.toList = none := by
      rw [message, String.toList_append, String.toList_append]
      obtain ⟨title, hs | hs⟩ := Symbol.exists_describe applicable
      · rw [hs]
        exact ⟨rfl, rfl⟩
      · rw [hs]
        exact ⟨rfl, rfl⟩
    unfold read?
    rw [apart.1, apart.2]
    exact readApplied?_message applicable value

end Step

/-! ## Journals -/

/-- Only what can be applied is on record as applied. -/
theorem Step.Faithful.isApplicable {A : Arithmetic Float} {steps : List (Step Float)}
    (h : Faithful A steps) {symbol : Symbol Float} {value : Float}
    (hmem : .applied symbol value ∈ steps) : symbol.isApplicable = true := by
  have settled : symbol ∈ steps.filterMap applied? := List.mem_filterMap.2 ⟨_, hmem, rfl⟩
  exact (List.mem_filter.1 (h.applied.subset settled)).2

theorem Report.level_ending (report : Report) : report.ending.level = .debug := by
  unfold ending
  split <;> rfl

/-- The finest records of a journal are those of the steps. -/
theorem Report.filter_records (report : Report) :
    (report.records.filter fun record => record.level = .trace) =
      report.steps.map fun step => ⟨.trace, step.message⟩ := by
  have fine : ∀ record ∈ report.steps.map fun step => (⟨.trace, step.message⟩ : Record),
      decide (record.level = .trace) = true := by
    intro record hmem
    obtain ⟨step, -, rfl⟩ := List.mem_map.1 hmem
    rfl
  unfold records
  rw [List.cons_append, List.filter_cons_of_neg (by simp), List.filter_append,
    List.filter_eq_self.2 fine, List.filter_cons_of_neg (by simp [report.level_ending]),
    List.filter_nil, List.append_nil]

/-- **A journal can be read**: each of its finest records tells of a step. -/
theorem Report.map_step?_records {A : Arithmetic Float} {report : Report}
    (h : Step.Faithful A report.steps) :
    (report.records.filter fun record => record.level = .trace).map Record.step? =
      report.steps.map some := by
  rw [filter_records, List.map_map]
  refine List.map_congr_left fun step hmem => Step.read?_message fun symbol value heq => ?_
  exact h.isApplicable (heq ▸ hmem)

end Reckoner
