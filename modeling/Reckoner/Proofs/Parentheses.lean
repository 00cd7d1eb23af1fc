import Mathlib.Data.List.Infix
import Reckoner.Ieee
import Reckoner.Proofs.Text.Delimiters

/-!
# Verdicts on parentheses

What an evaluation says about parentheses is true of the expression as it was written, although the
machine sees it in one more pair (`evaluate_verdict`). A value, or several, comes only out of a
`Balanced` text. A missing `)` is reported only where nothing but `)` is missing (`Unclosed`), and a
missing `(` only where some part at the start of the text closes more than it opens (`Overclosed`).

The groups that are open in front of a token are the parentheses of the text up to there and the
outer one. So they run out before the last token exactly if the text is overclosed.
-/

namespace Reckoner

/-! ## Parentheses in a text -/

/-- Every parenthesis of a text has its partner. -/
structure Balanced (text : List Char) : Prop where
  /-- No part at the start closes more groups than it opens. -/
  front : ∀ front, front <+: text → front.count ')' ≤ front.count '('
  total : text.count ')' = text.count '('

/-- Some groups of a text are left open, and nothing else is wrong. -/
structure Unclosed (text : List Char) : Prop where
  front : ∀ front, front <+: text → front.count ')' ≤ front.count '('
  total : text.count ')' < text.count '('

/-- Some part at the start of a text closes more groups than it opens. -/
def Overclosed (text : List Char) : Prop :=
  ∃ front, front <+: text ∧ front.count '(' < front.count ')'

section Text

variable {text : List Char}

instance : Decidable (Balanced text) :=
  decidable_of_iff ((∀ front ∈ text.inits, front.count ')' ≤ front.count '(') ∧
      text.count ')' = text.count '(')
    ⟨fun h => ⟨fun front hfront => h.1 front ((List.mem_inits ..).2 hfront), h.2⟩,
      fun h => ⟨fun front hfront => h.front front ((List.mem_inits ..).1 hfront), h.total⟩⟩

instance : Decidable (Overclosed text) :=
  decidable_of_iff (∃ front ∈ text.inits, front.count '(' < front.count ')')
    ⟨fun ⟨front, hmem, hlt⟩ => ⟨front, (List.mem_inits ..).1 hmem, hlt⟩,
      fun ⟨front, hfront, hlt⟩ => ⟨front, (List.mem_inits ..).2 hfront, hlt⟩⟩

theorem Balanced.not_unclosed (h : Balanced text) : ¬ Unclosed text := by
  intro h'
  exact absurd h.total (Nat.ne_of_lt h'.total)

theorem Balanced.not_overclosed (h : Balanced text) : ¬ Overclosed text := by
  rintro ⟨front, hfront, hlt⟩
  exact absurd hlt (Nat.not_lt.2 (h.front front hfront))

theorem Unclosed.not_overclosed (h : Unclosed text) : ¬ Overclosed text := by
  rintro ⟨front, hfront, hlt⟩
  exact absurd hlt (Nat.not_lt.2 (h.front front hfront))

/-- A text without parentheses is balanced. -/
theorem balanced_of_filter_eq_nil (h : text.filter Lexeme.isDelimiter = []) : Balanced text := by
  have none : ∀ c, Lexeme.isDelimiter c = true → ∀ front, front <+: text → front.count c = 0 := by
    intro c hc front hfront
    have start := hfront.filter Lexeme.isDelimiter
    rw [h, List.prefix_nil] at start
    rw [← List.count_filter hc, start, List.count_nil]
  refine ⟨fun front hfront => ?_, ?_⟩
  · rw [none ')' rfl front hfront]
    exact Nat.zero_le _
  · rw [none ')' rfl text List.prefix_rfl, none '(' rfl text List.prefix_rfl]

end Text

/-- The failures that say nothing about parentheses without partners. -/
inductive EvalError.Otherwise : EvalError → Prop where
  | unknownSymbol (token : String) : Otherwise (.unknownSymbol token)
  | danglingFunction (f : Builtin) : Otherwise (.danglingFunction f)
  | stackUnderflow : Otherwise .stackUnderflow

namespace SymbolTable

variable {table : SymbolTable}

namespace Built

variable (built : table.Built) {expression : String}

include built

/-! ## Groups and parentheses -/

section Groups

variable {left : List Frame} (h : (table.script expression).groups = .ok left)

include h

omit built in
/-- Tokens that can all be taken are symbols that never close more groups than they open, and the
groups that are left are the parentheses that are. -/
theorem exists_symbols_of_groups :
    ∃ symbols : List (Symbol Float), table.scan (kept expression) = symbols.map .ok ∧
      left.length + symbols.countP Symbol.closes = symbols.countP Symbol.opens ∧
      ∀ before after, symbols = before ++ after →
        before.countP Symbol.closes ≤ before.countP Symbol.opens := by
  have hscript := Script.eq_of_groups h
  obtain ⟨first, second, middle, hfirst, hlast, -⟩ := Script.ofTokens_append_inv hscript
  obtain ⟨symbols, hscan, hlen⟩ := Script.length_of_ofTokens hfirst
  obtain ⟨last, heq, hlen'⟩ := Script.length_of_ofTokens hlast
  refine ⟨symbols, hscan, ?_, ?_⟩
  · obtain rfl : [Symbol.parenRight] = last := (List.map_inj_right fun _ _ => Except.ok.inj).1 heq
    have hone : [(Symbol.parenRight : Symbol Float)].countP Symbol.closes = 1 := rfl
    have hnone : [(Symbol.parenRight : Symbol Float)].countP Symbol.opens = 0 := rfl
    rw [List.length_singleton] at hlen
    omega
  · rintro before after rfl
    unfold script at hscript
    rw [hscan, List.map_append, List.append_assoc] at hscript
    have hopen := Script.countP_lt_of_ofTokens hscript (by simp)
    rw [List.length_singleton] at hopen
    omega

theorem count_le_of_front {front : List Char} (hfront : front <+: expression.toList) :
    front.count ')' ≤ front.count '(' := by
  obtain ⟨symbols, hscan, -, hle⟩ := exists_symbols_of_groups h
  obtain ⟨before, after, heq, hopens, hcloses⟩ := built.exists_append_of_front hscan hfront
  have := hle before after heq
  omega

theorem length_add_count :
    left.length + expression.toList.count ')' = expression.toList.count '(' := by
  obtain ⟨symbols, hscan, hlen, -⟩ := exists_symbols_of_groups h
  have kept := built.filterMap_delimiter_kept expression
  rw [hscan, filterMap_tokenDelimiter?] at kept
  obtain ⟨hopens, hcloses⟩ := count_eq_countP kept.symm
  omega

end Groups

/-- Why the tokens of an expression end early. -/
theorem groups_error {e : EvalError} (h : (table.script expression).groups = .error e) :
    e.Otherwise ∨ (e = .unmatchedParenthesis .right ∧ Overclosed expression.toList) := by
  rcases Script.ofTokens_opened_eq_error h with hmem | ⟨rfl, symbols, rest, heq, hne, hlen⟩ |
    ⟨f, _, _, _, rfl, -⟩
  · rcases List.mem_append.1 hmem with hmem | hmem
    · obtain ⟨lexeme, -, hclass⟩ := List.mem_map.1 hmem
      rw [classify_error hclass]
      exact .inl (.unknownSymbol _)
    · cases List.mem_singleton.1 hmem
  · -- the last token closes the outer group, so it is not among the symbols that close one more
    have start : symbols.map .ok <+: table.scan (kept expression) := by
      have hprefix : symbols.map .ok <+: table.scan (kept expression) ++ [.ok .parenRight] :=
        ⟨rest, heq.symm⟩
      rcases List.prefix_concat_iff.1 hprefix with hall | hstart
      · rw [hall] at heq
        exact absurd (List.append_right_eq_self.1 heq.symm) hne
      · exact hstart
    obtain ⟨rest', hscan⟩ := start
    obtain ⟨front, hfront, hopens, hcloses⟩ := built.exists_front hscan.symm
    exact .inr ⟨rfl, front, hfront, by omega⟩
  · exact .inl (.danglingFunction f)

/-! ## Verdicts -/

/-- Every outcome fits the text, or says nothing about parentheses. -/
theorem evaluate_fits (A : Arithmetic Float) (expression : String) :
    (Balanced expression.toList ∧
      ∀ paren, table.evaluate A expression ≠ .error (.unmatchedParenthesis paren)) ∨
    (Unclosed expression.toList ∧
      table.evaluate A expression = .error (.unmatchedParenthesis .left)) ∨
    (Overclosed expression.toList ∧
      table.evaluate A expression = .error (.unmatchedParenthesis .right)) ∨
    ∃ e, e.Otherwise ∧ table.evaluate A expression = .error e := by
  by_cases hblank : kept expression = []
  · have none : expression.toList.filter Lexeme.isDelimiter = [] := by
      rw [← filter_isDelimiter_kept, hblank, List.filter_nil]
    rw [built.evaluate_eq, if_pos hblank]
    exact .inl ⟨balanced_of_filter_eq_nil none, fun paren => by simp⟩
  rw [built.evaluate_of_prepare ((prepare_eq expression).trans (if_neg hblank))]
  have closed : (table.script expression).groups = .ok [] → Balanced expression.toList := by
    intro hgroups
    have total := built.length_add_count hgroups
    rw [List.length_nil, Nat.zero_add] at total
    exact ⟨fun _ => built.count_le_of_front hgroups, total⟩
  cases houtcome : (table.script expression).outcome A with
  | ok value =>
    exact .inl ⟨closed (Script.outcome_eq_ok houtcome).1, fun paren => by simp⟩
  | error e =>
    rcases Script.outcome_eq_error houtcome with
      rfl | hgroups | ⟨rfl, frame, outer, hgroups⟩ | ⟨values, hgroups, -, -, rfl⟩
    · exact .inr (.inr (.inr ⟨_, .stackUnderflow, rfl⟩))
    · rcases built.groups_error hgroups with otherwise | ⟨rfl, overclosed⟩
      · exact .inr (.inr (.inr ⟨e, otherwise, rfl⟩))
      · exact .inr (.inr (.inl ⟨overclosed, rfl⟩))
    · have total := built.length_add_count hgroups
      rw [List.length_cons] at total
      exact .inr (.inl ⟨⟨fun _ => built.count_le_of_front hgroups, by omega⟩, rfl⟩)
    · exact .inl ⟨closed hgroups, fun paren => by simp⟩

/-- **Verdicts on parentheses are right.** Values come out of balanced texts only, and what is
reported missing is missing. So a balanced text gets neither report, and one that is not balanced
gets the one that is right for it, unless another failure comes first. -/
theorem evaluate_verdict (A : Arithmetic Float) (expression : String) :
    ((∃ value, table.evaluate A expression = .ok value) ∨
        (∃ count, table.evaluate A expression = .error (.leftoverValues count)) →
      Balanced expression.toList) ∧
    (table.evaluate A expression = .error (.unmatchedParenthesis .left) →
      Unclosed expression.toList) ∧
    (table.evaluate A expression = .error (.unmatchedParenthesis .right) →
      Overclosed expression.toList) ∧
    (Balanced expression.toList →
      ∀ paren, table.evaluate A expression ≠ .error (.unmatchedParenthesis paren)) ∧
    (¬ Balanced expression.toList →
      (Unclosed expression.toList ∧
        table.evaluate A expression = .error (.unmatchedParenthesis .left)) ∨
      (Overclosed expression.toList ∧
        table.evaluate A expression = .error (.unmatchedParenthesis .right)) ∨
      ∃ e, e.Otherwise ∧ table.evaluate A expression = .error e) := by
  rcases built.evaluate_fits A expression with ⟨hb, hne⟩ | ⟨hu, he⟩ | ⟨ho, he⟩ | ⟨e, other, he⟩
  · refine ⟨fun _ => hb, fun h => absurd h (hne _), fun h => absurd h (hne _), fun _ => hne, ?_⟩
    exact fun h => absurd hb h
  · rw [he]
    refine ⟨by simp, fun _ => hu, by simp, fun hb => absurd hu hb.not_unclosed, fun _ => ?_⟩
    exact .inl ⟨hu, rfl⟩
  · rw [he]
    refine ⟨by simp, by simp, fun _ => ho, fun hb => absurd ho hb.not_overclosed, fun _ => ?_⟩
    exact .inr (.inl ⟨ho, rfl⟩)
  · rw [he]
    cases other with
    | unknownSymbol | danglingFunction | stackUnderflow =>
      refine ⟨by simp, by simp, by simp, by simp, fun _ => .inr (.inr ⟨_, ?_, rfl⟩)⟩
      constructor

end Built

/-- Of `1)+(2` the counts agree, but the first parenthesis closes nothing. -/
theorem evaluate_verdict_crossed :
    SymbolTable.standard.evaluate .ieee "1)+(2" = .error (.unmatchedParenthesis .right) ∧
      Overclosed "1)+(2".toList := by
  have h : SymbolTable.standard.evaluate .ieee "1)+(2" =
      .error (.unmatchedParenthesis .right) := by
    decide +kernel
  obtain ⟨-, -, overclosed, -⟩ := Built.standard.evaluate_verdict .ieee "1)+(2"
  exact ⟨h, overclosed h⟩

end SymbolTable

end Reckoner
