import Reckoner.Evaluator
import Reckoner.Proofs.Machine.Script
import Reckoner.Proofs.Table.Built
import Reckoner.Proofs.Text.Lexing
import Reckoner.Proofs.Text.Numeral

/-!
# The outcome of an expression

With a table that can be built, the tokens of an expression are those of its characters that count,
in one pair of parentheses, and the outcome of an evaluation is that of their script
(`Built.evaluate_eq`). An expression has a value exactly when its tokens leave one group and one
value (`Built.evaluate_eq_ok_iff`). The tokens of a text are put together from those of its parts wherever a
delimiter stands between them (`scan_append_of_head`, `scan_append_of_getLast`).
-/

namespace Reckoner

theorem Operator.isDelimiter_char (op : Operator) : Lexeme.isDelimiter op.char = true := by
  cases op <;> rfl

namespace SymbolTable

variable {table : SymbolTable}

/-! ## The tokens of a text -/

/-- The tokens of a text that is not prepared. -/
def scan (table : SymbolTable) (text : List Char) : List (Except EvalError (Symbol Float)) :=
  (Lexeme.split text).map table.classify

theorem tokens_ofList (text : List Char) : table.tokens (String.ofList text) = table.scan text := by
  rw [tokens, String.toList_ofList, scan]

@[simp] theorem scan_nil : table.scan [] = [] := rfl

theorem scan_append_of_head {right : List Char}
    (h : ∀ c ∈ right.head?, Lexeme.isDelimiter c = true) (left : List Char) :
    table.scan (left ++ right) = table.scan left ++ table.scan right := by
  rw [scan, Lexeme.split_append_of_head h, List.map_append, scan, scan]

theorem scan_append_of_getLast {left : List Char}
    (h : ∀ c ∈ left.getLast?, Lexeme.isDelimiter c = true) (right : List Char) :
    table.scan (left ++ right) = table.scan left ++ table.scan right := by
  rw [scan, Lexeme.split_append_of_getLast h, List.map_append, scan, scan]

theorem scan_delimiter {c : Char} (h : Lexeme.isDelimiter c = true) (text : List Char) :
    table.scan (c :: text) = table.classify (.delimiter c) :: table.scan text := by
  rw [scan, Lexeme.split_delimiter h, List.map_cons, scan]

theorem scan_append_delimiter {c : Char} (h : Lexeme.isDelimiter c = true)
    (left right : List Char) :
    table.scan (left ++ c :: right) = table.scan left ++ table.scan (c :: right) :=
  scan_append_of_head (by rintro d ⟨⟩; exact h) left

/-- A token that is a symbol is a number written out, or it is in the table. -/
theorem classify_eq_ok {lexeme : Lexeme} {symbol : Symbol Float}
    (h : table.classify lexeme = .ok symbol) :
    (lexeme.chars.head?.any Char.isDigit = true ∧
      ∃ value, readFloat? lexeme.chars = some value ∧ symbol = .literal value) ∨
    (lexeme.chars.head?.any Char.isDigit = false ∧ table.lookup lexeme.text = some symbol) := by
  unfold classify at h
  simp only at h
  split at h
  · next found hfound =>
    cases h
    split at hfound
    · next hd =>
      obtain ⟨value, hr, rfl⟩ := Option.map_eq_some_iff.1 hfound
      exact .inl ⟨hd, value, hr, rfl⟩
    · next hd => exact .inr ⟨by simpa using hd, hfound⟩
  · cases h

/-- What begins with a digit is a number or nothing, whatever the table. -/
theorem classify_of_digit {lexeme : Lexeme} (h : lexeme.chars.head?.any Char.isDigit = true) :
    table.classify lexeme = match readFloat? lexeme.chars with
      | some value => .ok (.literal value)
      | none => .error (.unknownSymbol lexeme.text) := by
  cases hr : readFloat? lexeme.chars <;> simp [classify, h, hr]

theorem classify_of_not_digit {lexeme : Lexeme}
    (h : lexeme.chars.head?.any Char.isDigit = false) :
    table.classify lexeme = match table.lookup lexeme.text with
      | some symbol => .ok symbol
      | none => .error (.unknownSymbol lexeme.text) := by
  cases hl : table.lookup lexeme.text <;> simp [classify, h, hl]

theorem classify_error {lexeme : Lexeme} {e : EvalError} (h : table.classify lexeme = .error e) :
    e = .unknownSymbol lexeme.text := by
  unfold classify at h
  simp only at h
  split at h <;> cases h
  rfl

/-- A text that is one token is one lexeme. -/
theorem exists_lexeme_of_tokens {word : String} {token : Except EvalError (Symbol Float)}
    (h : table.tokens word = [token]) :
    ∃ lexeme, lexeme.chars = word.toList ∧ table.classify lexeme = token := by
  obtain ⟨lexeme, hsplit, hclass⟩ := List.map_eq_singleton_iff.1 h
  refine ⟨lexeme, ?_, hclass⟩
  rw [← Lexeme.flatMap_chars_split word.toList, hsplit, List.flatMap_singleton]

/-- A delimiter is looked up, being no digit. -/
theorem classify_delimiter {c : Char} (h : Lexeme.isDelimiter c = true) {symbol : Symbol Float}
    (hl : table.lookup (String.ofList [c]) = some symbol) :
    table.classify (.delimiter c) = .ok symbol := by
  have hd := Lexeme.isDigit_of_isDelimiter h
  simp only [classify, Lexeme.chars, List.head?_cons, Option.any_some, hd, Lexeme.text, hl]
  rfl

/-- A name is one word, and it is looked up. -/
theorem scan_name {name : String} (h : IsName name.toList) {symbol : Symbol Float}
    (hl : table.lookup name = some symbol) : table.scan name.toList = [.ok symbol] := by
  obtain ⟨c, hc, hd⟩ := h.head
  rw [scan, Lexeme.split_word h.ne_nil h.isDelimiter]
  simp only [List.map_cons, List.map_nil, classify, Lexeme.chars, Lexeme.text, Option.mem_def.1 hc,
    Option.any_some, hd, String.ofList_toList, hl]
  rfl

/-- A word that begins with a digit and reads as a number is a literal. -/
theorem scan_number {word : List Char} {value : Float} (hd : ∃ c ∈ word.head?, c.isDigit = true)
    (h : ∀ c ∈ word, Lexeme.isDelimiter c = false) (hr : readFloat? word = some value) :
    table.scan word = [.ok (.literal value)] := by
  obtain ⟨c, hc, hd⟩ := hd
  have hne : word ≠ [] := by
    rintro rfl
    cases hc
  rw [scan, Lexeme.split_word hne h]
  simp [classify, Lexeme.chars, Option.mem_def.1 hc, hd, hr]

namespace Built

variable (built : table.Built)

include built

theorem scan_parenLeft (text : List Char) :
    table.scan ('(' :: text) = .ok .parenLeft :: table.scan text := by
  rw [scan_delimiter rfl, classify_delimiter rfl built.lookup_parenLeft]

theorem scan_parenRight (text : List Char) :
    table.scan (')' :: text) = .ok .parenRight :: table.scan text := by
  rw [scan_delimiter rfl, classify_delimiter rfl built.lookup_parenRight]

theorem scan_comma (text : List Char) :
    table.scan (',' :: text) = .ok .comma :: table.scan text := by
  rw [scan_delimiter rfl, classify_delimiter rfl built.lookup_comma]

theorem scan_operator (op : Operator) (text : List Char) :
    table.scan (op.char :: text) = .ok (.operator op) :: table.scan text := by
  have h := op.isDelimiter_char
  rw [scan_delimiter h, classify_delimiter h (built.lookup_operator op)]

theorem scan_builtin (f : Builtin) : table.scan f.name.toList = [.ok (.function f)] :=
  scan_name (isName_builtin f) (built.lookup_function f)

theorem scan_group (text : List Char) :
    table.scan ('(' :: text ++ [')']) =
      .ok .parenLeft :: (table.scan text ++ [.ok .parenRight]) := by
  rw [List.cons_append, built.scan_parenLeft, scan_append_delimiter rfl, built.scan_parenRight,
    scan_nil]

theorem scan_call (f : Builtin) (text : List Char) :
    table.scan (f.name.toList ++ ('(' :: text ++ [')'])) =
      .ok (.function f) :: .ok .parenLeft :: (table.scan text ++ [.ok .parenRight]) := by
  rw [scan_append_of_head (by rintro c ⟨⟩; rfl), built.scan_builtin, built.scan_group]
  rfl

end Built

/-! ## The outcome of an evaluation -/

theorem evaluate_eq_run (A : Arithmetic Float) (expression : String) :
    table.evaluate A expression = (prepare expression).bind fun source =>
      Machine.outcome (Machine.run A (table.tokens source) .empty) := by
  unfold evaluate report Evaluator.evaluate
  cases hs : prepare expression with
  | error e => rw [Evaluator.run_of_error hs, Except.bind]
  | ok source =>
    rw [Evaluator.run_of_prepare hs, Except.bind, Evaluator.new]
    cases Machine.run A (table.tokens source) .empty <;> rfl

/-- **The outcome of an expression** is that of the script of its tokens. -/
theorem Built.evaluate_eq (built : table.Built) (A : Arithmetic Float) (expression : String) :
    table.evaluate A expression = if kept expression = [] then .error .emptyExpression else
      (Script.ofTokens [Frame.opened]
        (table.scan (kept expression) ++ [.ok .parenRight])).outcome A := by
  rw [evaluate_eq_run, prepare_eq]
  split
  · rfl
  · rw [Except.bind, tokens_ofList, built.scan_group, Machine.outcome_run]

/-- The tokens of a prepared expression. -/
theorem Built.tokens_of_prepare (built : table.Built) {expression source : String}
    (hs : prepare expression = .ok source) :
    table.tokens source =
      .ok .parenLeft :: (table.scan (kept expression) ++ [.ok .parenRight]) := by
  rw [prepare_eq] at hs
  split at hs
  · cases hs
  · cases hs
    rw [tokens_ofList, built.scan_group]

/-- The script of an expression behind its first parenthesis. -/
def script (table : SymbolTable) (expression : String) : Script Float :=
  Script.ofTokens [Frame.opened] (table.scan (kept expression) ++ [.ok .parenRight])

theorem Built.evaluate_of_prepare (built : table.Built) {A : Arithmetic Float}
    {expression source : String} (hs : prepare expression = .ok source) :
    table.evaluate A expression = (table.script expression).outcome A := by
  rw [prepare_eq] at hs
  rw [built.evaluate_eq]
  split at hs
  · cases hs
  · next hkept =>
    rw [if_neg hkept]
    rfl

/-- Only an expression without characters that count is blank. -/
theorem Built.exists_prepare (built : table.Built) {A : Arithmetic Float} {expression : String}
    (h : table.evaluate A expression ≠ .error .emptyExpression) :
    ∃ source, prepare expression = .ok source := by
  by_cases hkept : kept expression = []
  · rw [built.evaluate_eq, if_pos hkept] at h
    exact absurd rfl h
  · exact ⟨_, (prepare_eq expression).trans (if_neg hkept)⟩

/-- **The expressions that have a value.** All their tokens are symbols that can be taken, one group
is left, and its last parenthesis settles what waits there. -/
theorem Built.evaluate_eq_ok_iff (built : table.Built) {A : Arithmetic Float} {expression : String}
    {value : Float} : table.evaluate A expression = .ok value ↔
      ∃ (symbols program : List (Symbol Float)) (frame : Frame),
        table.scan (kept expression) = symbols.map .ok ∧
        Script.ofTokens [Frame.opened] (symbols.map .ok) = ⟨program, .ok [frame]⟩ ∧
        frame.function = none ∧
        Postfix.run A (program ++ frame.pending.map .operator) [] = .ok [value] := by
  constructor
  · intro h
    rw [built.evaluate_eq] at h
    split at h
    · cases h
    · obtain ⟨hgroups, hrun⟩ := Script.outcome_eq_ok h
      obtain ⟨symbols, program, frame, hscan, hscript, hf, heq⟩ :=
        Script.ofTokens_closed_iff.1 (Script.eq_of_groups hgroups)
      rw [heq] at hrun
      exact ⟨symbols, program, frame, hscan, hscript, hf, hrun⟩
  · rintro ⟨symbols, program, frame, hscan, hscript, hf, hrun⟩
    have hne : kept expression ≠ [] := by
      intro hnil
      rw [← hscan, hnil] at hscript
      cases hscript
      cases hrun
    have closed := Script.ofTokens_closed_iff.2
      ⟨symbols, program, frame, hscan, hscript, hf, rfl⟩
    rw [built.evaluate_eq, if_neg hne, closed, Script.outcome, Script.perform, hrun]
    rfl

end SymbolTable

end Reckoner
