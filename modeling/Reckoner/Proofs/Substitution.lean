import Reckoner.Ieee
import Reckoner.Proofs.Evaluation

/-!
# Groups and their values

An accepted expression in parentheses works like its value: in any context, well formed or not, a
word for the value gives the same outcome (`evaluate_substitute`). Two facts carry this. The script
of the group ends with the groups that were open before, because its tokens stay above them
(`Script.ofTokens_group`). And its program puts the value on top of the values that were there
before, because a program that succeeds on the empty stack needs nothing from below
(`Postfix.run_frame`).
-/

namespace Reckoner

namespace Script

variable {α : Type} {A : Arithmetic α}

/-- An accepted expression in parentheses leaves the groups around it as they are. -/
theorem ofTokens_group {tokens : List (Except EvalError (Symbol α))} {program : List (Symbol α)}
    (h : ofTokens [Frame.opened] (tokens ++ [.ok .parenRight]) = ⟨program, .ok []⟩)
    {frame : Frame} (hf : frame.function = none) (outer : List Frame) :
    ofTokens (frame :: outer) (.ok .parenLeft :: (tokens ++ [.ok .parenRight])) =
      ⟨program, .ok (frame :: outer)⟩ := by
  have hb : ∀ top ∈ (frame :: outer).head?, top.function = none := by
    rintro top ⟨⟩
    exact hf
  have above := ofTokens_above h (by simp) fun _ => hb
  rw [ofTokens_cons_of_turn Frame.turn_parenLeft, andThen_ok, List.nil_append]
  exact above

/-- A number leaves the groups around it as they are. -/
theorem ofTokens_value {frame : Frame} (hf : frame.function = none) (outer : List Frame)
    {symbol : Symbol α} {value : α} (hs : symbol = .literal value ∨ symbol = .named value) :
    ofTokens (frame :: outer) [.ok symbol] = ⟨[symbol], .ok (frame :: outer)⟩ := by
  rcases hs with rfl | rfl
  · exact ofTokens_singleton_of_turn (Frame.turn_literal hf value)
  · exact ofTokens_singleton_of_turn (Frame.turn_named hf value)

/-- **A group performs like its value** where no function waits on top. -/
theorem perform_group {tokens : List (Except EvalError (Symbol α))} {value : α}
    (h : (ofTokens [Frame.opened] (tokens ++ [.ok .parenRight])).outcome A = .ok value)
    {symbol : Symbol α} (hs : symbol = .literal value ∨ symbol = .named value)
    {frames : List Frame} (hf : ∀ frame ∈ frames.head?, frame.function = none) (values : List α) :
    (ofTokens frames (.ok .parenLeft :: (tokens ++ [.ok .parenRight]))).perform A values =
      (ofTokens frames [.ok symbol]).perform A values := by
  cases frames with
  | nil => rfl
  | cons frame outer =>
    obtain ⟨hg, hr⟩ := outcome_eq_ok h
    generalize hscript : ofTokens [Frame.opened] (tokens ++ [.ok .parenRight]) = script at hg hr
    obtain ⟨program, groups⟩ := script
    cases hg
    rw [ofTokens_group hscript (hf frame rfl) outer, ofTokens_value (hf frame rfl) outer hs]
    have hp : Postfix.run A program values = .ok (value :: values) := Postfix.run_frame hr values
    simp only [perform, hp]
    rcases hs with rfl | rfl <;> rfl

/-- **A group can be replaced by its value** between any tokens, if no function comes right before
it. -/
theorem outcome_substitute {tokens : List (Except EvalError (Symbol α))} {value : α}
    (h : (ofTokens [Frame.opened] (tokens ++ [.ok .parenRight])).outcome A = .ok value)
    {symbol : Symbol α} (hs : symbol = .literal value ∨ symbol = .named value)
    {before : List (Except EvalError (Symbol α))}
    (hb : ∀ frames, (ofTokens [Frame.opened] before).groups = .ok frames →
      ∀ frame ∈ frames.head?, frame.function = none)
    (after : List (Except EvalError (Symbol α))) :
    (ofTokens [Frame.opened]
        (before ++ (.ok .parenLeft :: (tokens ++ [.ok .parenRight]) ++ after))).outcome A =
      (ofTokens [Frame.opened] (before ++ ([.ok symbol] ++ after))).outcome A := by
  simp only [outcome, ofTokens_append]
  congr 1
  refine perform_andThen_congr (fun frames hframes values => ?_) []
  rw [perform_andThen, perform_andThen, perform_group h hs (hb frames hframes) values]

end Script

namespace SymbolTable

variable {table : SymbolTable}

namespace Built

variable (built : table.Built)

include built

/-- A word that stands for a value has no blanks. -/
theorem isBlank_of_classify {lexeme : Lexeme} {symbol : Symbol Float} {value : Float}
    (hs : symbol = .literal value ∨ symbol = .named value)
    (h : table.classify lexeme = .ok symbol) : ∀ c ∈ lexeme.chars, isBlank c = false := by
  rcases classify_eq_ok h with ⟨hd, v, hv, -⟩ | ⟨-, hlookup⟩
  · obtain ⟨d, hd, hdigit⟩ := (Option.any_eq_true ..).1 hd
    obtain ⟨text, htext⟩ : ∃ text, lexeme.chars = d :: text := List.head?_eq_some_iff.1 hd
    rw [htext] at hv ⊢
    exact isBlank_of_readFloat? hdigit hv
  · rcases hs with rfl | rfl
    · exact absurd hlookup (built.lookup_ne_literal _ _)
    · have name := (built.isName_of_lookup hlookup).isBlank
      rwa [Lexeme.text, String.toList_ofList] at name

/-- A text that is one token for a value is all kept. -/
theorem kept_of_tokens {word : String} {symbol : Symbol Float} {value : Float}
    (hs : symbol = .literal value ∨ symbol = .named value)
    (h : table.tokens word = [.ok symbol]) : kept word = word.toList := by
  obtain ⟨lexeme, hchars, hlex⟩ := exists_lexeme_of_tokens h
  refine kept_eq_self fun c hc => ?_
  rw [← hchars] at hc
  exact built.isBlank_of_classify hs hlex c hc

/-- A text that is empty or ends with a delimiter leaves no function on top. -/
theorem function_of_scan {text : List Char} (h : ∀ c ∈ text.getLast?, Lexeme.isDelimiter c = true)
    {left : List Frame}
    (hg : (Script.ofTokens [Frame.opened] (table.scan text)).groups = .ok left) :
    ∀ frame ∈ left.head?, frame.function = none := by
  rcases List.eq_nil_or_concat text with rfl | ⟨front, c, rfl⟩
  · cases hg
    rintro frame ⟨⟩
    rfl
  · rw [List.concat_eq_append] at h hg
    have hc : Lexeme.isDelimiter c = true := h c (by simp)
    obtain ⟨symbol, hl, hd⟩ := built.exists_lookup_delimiter hc
    rw [scan_append_of_head (by simpa using hc), scan_delimiter hc, classify_delimiter hc hl] at hg
    intro frame hframe
    rw [Script.function_of_ofTokens hg frame hframe]
    cases symbol <;> first | rfl | cases hd

end Built

/-- **A parenthesised expression is exchangeable with its value.** -/
theorem evaluate_substitute (built : table.Built) {A : Arithmetic Float} {expression word : String}
    {symbol : Symbol Float} {value : Float} (he : table.evaluate A expression = .ok value)
    (hs : symbol = .literal value ∨ symbol = .named value)
    (hw : table.tokens word = [.ok symbol]) {left right : String}
    (hleft : ∀ c ∈ (kept left).getLast?, Lexeme.isDelimiter c = true)
    (hright : ∀ c ∈ (kept right).head?, Lexeme.isDelimiter c = true) :
    table.evaluate A (left ++ "(" ++ expression ++ ")" ++ right) =
      table.evaluate A (left ++ word ++ right) := by
  have hscan : table.scan word.toList = [.ok symbol] := hw
  have hword : word.toList ≠ [] := by
    intro h
    rw [h] at hscan
    cases hscan
  -- both expressions as characters and as tokens
  have hgroup : kept (left ++ "(" ++ expression ++ ")" ++ right) =
      kept left ++ ('(' :: (kept expression ++ (')' :: kept right))) := by
    simp only [kept_append, List.append_assoc]
    rfl
  have hvalue : kept (left ++ word ++ right) = kept left ++ (word.toList ++ kept right) := by
    rw [kept_append, kept_append, built.kept_of_tokens hs hw, List.append_assoc]
  have hgroup' : table.scan (kept left ++ ('(' :: (kept expression ++ (')' :: kept right)))) =
      table.scan (kept left) ++ (.ok .parenLeft ::
        (table.scan (kept expression) ++ [.ok .parenRight]) ++ table.scan (kept right)) := by
    rw [scan_append_of_getLast hleft, built.scan_parenLeft, scan_append_delimiter rfl,
      built.scan_parenRight]
    simp
  have hvalue' : table.scan (kept left ++ (word.toList ++ kept right)) =
      table.scan (kept left) ++ ([.ok symbol] ++ table.scan (kept right)) := by
    rw [scan_append_of_getLast hleft, scan_append_of_head hright, hscan]
  have accepted : (Script.ofTokens [Frame.opened]
      (table.scan (kept expression) ++ [.ok .parenRight])).outcome A = .ok value := by
    rw [built.evaluate_eq] at he
    split at he
    · cases he
    · exact he
  rw [built.evaluate_eq, built.evaluate_eq, hgroup, hvalue, hgroup', hvalue',
    if_neg (by simp), if_neg (by simp [hword])]
  simp only [List.append_assoc]
  exact Script.outcome_substitute accepted hs (fun frames => built.function_of_scan hleft) _

/-- An expression that is accepted outside the infix grammar, in a context that is not accepted. -/
theorem evaluate_substitute_three :
    SymbolTable.standard.evaluate .ieee "7 - 2 *((1)(2)+)/ 4)(" =
      SymbolTable.standard.evaluate .ieee "7 - 2 *3/ 4)(" := by
  have hleft : (kept "7 - 2 *").getLast? = some '*' := by decide +kernel
  have hright : (kept "/ 4)(").head? = some '/' := by decide +kernel
  refine @evaluate_substitute _ .standard .ieee "(1)(2)+" "3" (.literal 3) 3 (by decide +kernel)
    (.inl rfl) (by decide +kernel) "7 - 2 *" "/ 4)(" ?_ ?_
  · rw [hleft]
    rintro c ⟨⟩
    rfl
  · rw [hright]
    rintro c ⟨⟩
    rfl

end SymbolTable

end Reckoner
