import Mathlib.Data.List.Basic
import Reckoner.Proofs.Evaluation

/-!
# The delimiters of an expression

The tokens of an expression keep its delimiters: every mark and operator stands for one of them, in
order, and no word hides one (`Built.filterMap_delimiter_scan`). So parentheses can be counted in
the text or in the symbols, up to any place (`Built.exists_front`, `Built.exists_append_of_front`,
`Built.exists_place`). Blanks make no difference to this.
-/

namespace Reckoner

namespace Symbol

variable {α : Type}

/-- The delimiter that spells a symbol. -/
def delimiter? : Symbol α → Option Char
  | parenLeft => some '('
  | parenRight => some ')'
  | comma => some ','
  | operator op => some op.char
  | literal _ | named _ | function _ => none

theorem delimiter?_beq_parenLeft (symbol : Symbol α) :
    (symbol.delimiter? == some '(') = symbol.opens := by
  cases symbol with
  | operator op => cases op <;> rfl
  | literal _ | named _ | parenLeft | parenRight | comma | function _ => rfl

theorem delimiter?_beq_parenRight (symbol : Symbol α) :
    (symbol.delimiter? == some ')') = symbol.closes := by
  cases symbol with
  | operator op => cases op <;> rfl
  | literal _ | named _ | parenLeft | parenRight | comma | function _ => rfl

theorem isDelimiter_eq_isSome (symbol : Symbol α) :
    symbol.isDelimiter = symbol.delimiter?.isSome := by
  cases symbol <;> rfl

/-- Parentheses are counted alike in symbols and in the delimiters that spell them. -/
theorem count_parenLeft (symbols : List (Symbol α)) :
    (symbols.filterMap delimiter?).count '(' = symbols.countP opens := by
  rw [List.count_filterMap]
  simp only [delimiter?_beq_parenLeft]

theorem count_parenRight (symbols : List (Symbol α)) :
    (symbols.filterMap delimiter?).count ')' = symbols.countP closes := by
  rw [List.count_filterMap]
  simp only [delimiter?_beq_parenRight]

end Symbol

/-- A text has the parentheses of symbols that are spelled by its delimiters. -/
theorem count_eq_countP {α : Type} {text : List Char} {symbols : List (Symbol α)}
    (h : text.filter Lexeme.isDelimiter = symbols.filterMap Symbol.delimiter?) :
    text.count '(' = symbols.countP Symbol.opens ∧
      text.count ')' = symbols.countP Symbol.closes := by
  have hl : Lexeme.isDelimiter '(' = true := rfl
  have hr : Lexeme.isDelimiter ')' = true := rfl
  rw [← List.count_filter hl, ← List.count_filter hr, h]
  exact ⟨Symbol.count_parenLeft symbols, Symbol.count_parenRight symbols⟩

/-- The delimiter that spells a token. -/
def tokenDelimiter? {α : Type} (token : Except EvalError (Symbol α)) : Option Char :=
  token.toOption.bind Symbol.delimiter?

theorem filterMap_tokenDelimiter? {α : Type} (symbols : List (Symbol α)) :
    (symbols.map .ok).filterMap tokenDelimiter? = symbols.filterMap Symbol.delimiter? := by
  rw [List.filterMap_map]
  rfl

/-- All delimiters of an expression count. -/
theorem filter_isDelimiter_kept (expression : String) :
    (kept expression).filter Lexeme.isDelimiter =
      expression.toList.filter Lexeme.isDelimiter := by
  rw [kept, List.filter_filter]
  refine List.filter_congr fun c _ => ?_
  cases hc : Lexeme.isDelimiter c with
  | false => rfl
  | true => simp [Lexeme.isBlank_of_isDelimiter hc]

namespace SymbolTable

/-- What is looked up is spelled by the delimiter that it is. -/
theorem StandardEntry.filter_isDelimiter {name : String} {symbol : Symbol Float}
    (h : StandardEntry name symbol) :
    name.toList.filter Lexeme.isDelimiter = symbol.delimiter?.toList := by
  cases h with
  | parenLeft | parenRight | comma => rfl
  | operator op => cases op <;> rfl
  | function f => exact (isName_builtin f).filter_isDelimiter
  | named h => exact (isName_of_mem_standardVariables h).filter_isDelimiter

variable {table : SymbolTable}

namespace Built

variable (built : table.Built)

include built

theorem filter_isDelimiter_of_lookup {name : String} {symbol : Symbol Float}
    (h : table.lookup name = some symbol) :
    name.toList.filter Lexeme.isDelimiter = symbol.delimiter?.toList := by
  rcases built.mem_of_lookup h with ⟨value, rfl⟩ | hmem
  · exact (built.isName_of_lookup h).filter_isDelimiter
  · exact (mem_standardEntries_iff.1 hmem).filter_isDelimiter

/-- A token is spelled by the delimiter that it is; a word has none. -/
theorem tokenDelimiter?_classify {lexeme : Lexeme} (h : lexeme.IsPiece) :
    (tokenDelimiter? (table.classify lexeme)).toList =
      lexeme.chars.filter Lexeme.isDelimiter := by
  cases h with
  | @delimiter c hc =>
    obtain ⟨symbol, hl, -⟩ := built.exists_lookup_delimiter hc
    have spelled := built.filter_isDelimiter_of_lookup hl
    rw [String.toList_ofList] at spelled
    rw [classify_delimiter hc hl]
    exact spelled.symm
  | @word chars _ hplain =>
    have none : chars.filter Lexeme.isDelimiter = [] :=
      List.filter_eq_nil_iff.2 fun c hc => by simp [hplain c hc]
    rw [Lexeme.chars, none]
    cases hclass : table.classify (.word chars) with
    | error e => rfl
    | ok symbol =>
      rcases classify_eq_ok hclass with ⟨-, value, -, rfl⟩ | ⟨-, hl⟩
      · rfl
      · have spelled := built.filter_isDelimiter_of_lookup hl
        rw [Lexeme.text, String.toList_ofList, Lexeme.chars, none] at spelled
        exact spelled.symm

/-- **Tokens keep the delimiters of a text**, and make none. -/
theorem filterMap_delimiter_scan (text : List Char) :
    (table.scan text).filterMap tokenDelimiter? = text.filter Lexeme.isDelimiter := by
  have pieces : ∀ lexeme ∈ Lexeme.split text,
      (tokenDelimiter? (table.classify lexeme)).toList = lexeme.chars.filter Lexeme.isDelimiter :=
    fun lexeme hmem => built.tokenDelimiter?_classify (Lexeme.isPiece_of_mem_split lexeme hmem)
  calc (table.scan text).filterMap tokenDelimiter?
      = (Lexeme.split text).flatMap fun lexeme =>
          (tokenDelimiter? (table.classify lexeme)).toList := by
        rw [scan, List.filterMap_map, List.filterMap_eq_flatMap_toList]
        rfl
    _ = (Lexeme.split text).flatMap fun lexeme => lexeme.chars.filter Lexeme.isDelimiter :=
        List.flatMap_congr pieces
    _ = text.filter Lexeme.isDelimiter := by
        rw [← List.filter_flatMap, Lexeme.flatMap_chars_split]

theorem filterMap_delimiter_kept (expression : String) :
    (table.scan (kept expression)).filterMap tokenDelimiter? =
      expression.toList.filter Lexeme.isDelimiter :=
  (built.filterMap_delimiter_scan _).trans (filter_isDelimiter_kept expression)

section Fronts

variable {expression : String} {symbols : List (Symbol Float)}
  {rest : List (Except EvalError (Symbol Float))}

/-- Symbols at the start of an expression come from a part at the start of its text. -/
theorem exists_front (h : table.scan (kept expression) = symbols.map .ok ++ rest) :
    ∃ front, front <+: expression.toList ∧ front.count '(' = symbols.countP Symbol.opens ∧
      front.count ')' = symbols.countP Symbol.closes := by
  have kept := built.filterMap_delimiter_kept expression
  rw [h, List.filterMap_append, filterMap_tokenDelimiter?] at kept
  have start : symbols.filterMap Symbol.delimiter? <+:
      expression.toList.filter Lexeme.isDelimiter := ⟨_, kept⟩
  obtain ⟨front, hfront, heq⟩ := List.prefix_filter_iff.1 start
  exact ⟨front, hfront, count_eq_countP heq.symm⟩

/-- A part at the start of the text of an expression has the parentheses of some of its first
symbols. -/
theorem exists_append_of_front (h : table.scan (kept expression) = symbols.map .ok)
    {front : List Char} (hfront : front <+: expression.toList) :
    ∃ before after, symbols = before ++ after ∧
      front.count '(' = before.countP Symbol.opens ∧
      front.count ')' = before.countP Symbol.closes := by
  have kept := built.filterMap_delimiter_kept expression
  rw [h, filterMap_tokenDelimiter?] at kept
  have start := hfront.filter Lexeme.isDelimiter
  rw [← kept] at start
  obtain ⟨before, ⟨after, rfl⟩, heq⟩ := List.prefix_filterMap_iff.1 start
  exact ⟨before, after, rfl, count_eq_countP heq⟩

/-- A symbol that a delimiter spells has a place in the text, behind the parentheses of the symbols
in front of it. -/
theorem exists_place {before after : List (Symbol Float)} {symbol : Symbol Float} {c : Char}
    (h : table.scan (kept expression) = (before ++ symbol :: after).map .ok)
    (hc : symbol.delimiter? = some c) :
    ∃ front, front ++ [c] <+: expression.toList ∧
      front.count '(' = before.countP Symbol.opens ∧
      front.count ')' = before.countP Symbol.closes := by
  have kept := built.filterMap_delimiter_kept expression
  rw [h, filterMap_tokenDelimiter?, List.filterMap_append, List.filterMap_cons_some hc] at kept
  obtain ⟨left, right, hsplit, hleft, hright⟩ := List.filter_eq_append_iff.1 kept.symm
  obtain ⟨skipped, back, rfl, hskipped, -, -⟩ := List.filter_eq_cons_iff.1 hright
  have hfront : (left ++ skipped).filter Lexeme.isDelimiter =
      before.filterMap Symbol.delimiter? := by
    rw [List.filter_append, hleft, List.filter_eq_nil_iff.2 hskipped, List.append_nil]
  exact ⟨left ++ skipped, ⟨back, by simp [hsplit]⟩, count_eq_countP hfront⟩

end Fronts

end Built

end SymbolTable

end Reckoner
