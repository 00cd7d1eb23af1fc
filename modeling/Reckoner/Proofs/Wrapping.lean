import Reckoner.Proofs.OperatorStack
import Reckoner.Proofs.Parentheses
import Reckoner.Proofs.Substitution

/-!
# Parentheses around a whole expression

An expression in any number of parentheses has the outcome that it has without them, failures
included (`Built.evaluate_parenthesized`). A blank expression is apart, since parentheses make a
group of it that has no value, and so is one that closes a group too many, since parentheses give it
that group. Where a group stays open, the parenthesis behind the expression closes it: what waits
there is applied now, and may want for operands (`Starves`).

Below the groups of the expression the parentheses have one more group, which no function waits for.
Tokens do the same above it (`Script.ofTokens_above`), and they end early for the same reason
(`Script.outcome_above_of_error`).
-/

namespace Reckoner

variable {α : Type} {A : Arithmetic α}

/-- An expression with pairs of parentheses around it. -/
def parenthesized : Nat → String → String
  | 0, expression => expression
  | n + 1, expression => "(" ++ parenthesized n expression ++ ")"

/-! ## Tokens that end early -/

namespace Script

theorem ofToken_eq_idle {frames : List Frame} {token : Except EvalError (Symbol α)} {e : EvalError}
    (h : (ofToken frames token).groups = .error e) : ofToken frames token = idle (.error e) := by
  match frames, token, h with
  | frames, .error e', h => cases frames <;> cases h <;> rfl
  | [], .ok symbol, h =>
    cases h
    rfl
  | frame :: outer, .ok symbol, h =>
    cases ht : frame.turn outer symbol with
    | ok turned =>
      simp only [ofToken, ht] at h
      cases h
    | error e' =>
      simp only [ofToken, ht] at h ⊢
      cases h
      rfl

/-- A token that cannot be taken cannot be taken above further groups either, unless it comes behind
the last group. -/
theorem ofToken_above_of_error {frames : List Frame} {token : Except EvalError (Symbol α)}
    {e : EvalError} (h : (ofToken frames token).groups = .error e)
    (hright : e ≠ .unmatchedParenthesis .right) (below : List Frame) :
    ofToken (frames ++ below) token = idle (.error e) := by
  rcases ofToken_eq_error h with rfl | ⟨-, rfl⟩ | ⟨frame, outer, f, symbol, rfl, hf, rfl, hs, rfl⟩
  · cases frames ++ below <;> rfl
  · exact absurd rfl hright
  · simp only [List.cons_append, ofToken, Frame.turn_dangling hf hs]

theorem outcome_append_of_idle {frames left : List Frame}
    {before tokens : List (Except EvalError (Symbol α))} {token : Except EvalError (Symbol α)}
    {program : List (Symbol α)} {e : EvalError}
    (h : ofTokens frames before = ⟨program, .ok left⟩)
    (htoken : ofToken left token = idle (.error e)) :
    (ofTokens frames (before ++ token :: tokens)).outcome A =
      (Postfix.run A program []).bind fun _ => .error e := by
  rw [outcome_append, h]
  cases hr : Postfix.run A program [] with
  | error e' =>
    rw [perform_error hr]
    rfl
  | ok values =>
    rw [perform_ok hr]
    simp only [Except.bind, ofTokens, htoken]
    rfl

/-- **Tokens that end early** have the same outcome above further groups, unless it is a parenthesis
too many. -/
theorem outcome_above_of_error {frames below : List Frame}
    {tokens : List (Except EvalError (Symbol α))} {e : EvalError}
    (h : (ofTokens frames tokens).groups = .error e) (hne : frames ≠ [])
    (hright : (ofTokens frames tokens).outcome A ≠ .error (.unmatchedParenthesis .right))
    (hb : ∀ frame ∈ below.head?, frame.function = none)
    (rest : List (Except EvalError (Symbol α))) :
    (ofTokens (frames ++ below) (tokens ++ rest)).outcome A =
      (ofTokens frames tokens).outcome A := by
  obtain ⟨before, token, after, program, left, rfl, hbefore, herror⟩ := ofTokens_eq_error h
  have above := ofTokens_above hbefore hne fun _ => hb
  rw [outcome_append_of_idle hbefore (ofToken_eq_idle herror)] at hright ⊢
  -- a program that fails does so before the token is read, whatever the token is
  cases hr : Postfix.run A program [] with
  | error e' =>
    rw [List.append_assoc, outcome_append, above, perform_error hr]
    rfl
  | ok values =>
    rw [hr] at hright
    have he : e ≠ .unmatchedParenthesis .right := fun he => hright (congrArg Except.error he)
    have stopped := ofToken_above_of_error herror he below
    rw [List.append_assoc, List.cons_append, outcome_append_of_idle above stopped, hr]

/-! ## Groups that stay open -/

/-- The parenthesis behind the tokens settles what waits in the innermost group, and the function in
front of it, and the group below is left. -/
theorem ofTokens_parentheses_of_open {tokens : List (Except EvalError (Symbol α))}
    {program : List (Symbol α)} {frame : Frame} {outer : List Frame}
    (h : ofTokens [Frame.opened] (tokens ++ [.ok .parenRight]) =
      ⟨program, .ok (frame :: outer)⟩) :
    ∃ frame' outer', ofTokens [Frame.opened]
        (.ok .parenLeft :: (tokens ++ [.ok .parenRight]) ++ [.ok .parenRight]) =
      ⟨program ++ (frame.pending.map .operator ++ Frame.callee outer), .ok (frame' :: outer')⟩ := by
  have hf : frame.function = none := function_of_ofTokens (congrArg groups h) frame rfl
  have above : ofTokens [.opened, .opened] (tokens ++ [.ok .parenRight]) =
      ⟨program, .ok (frame :: outer ++ [.opened])⟩ := ofTokens_above h (by simp) nofun
  have closed := ofTokens_append_eq_ok above
    (ofTokens_singleton_of_turn (Frame.turn_parenRight hf))
  have inner := ofTokens_cons_eq_of_turn Frame.turn_parenLeft closed
  cases outer with
  | nil => exact ⟨_, _, inner⟩
  | cons next outer => exact ⟨_, _, inner⟩

end Script

/-! ## What a run leaves behind -/

namespace Machine

theorem outcome_eq_error_iff {β : Type} {result : EStateM.Result EvalError (Machine α) β}
    {e : EvalError} : outcome result = .error e ↔ effect result = .error e := by
  cases result <;> simp [outcome, effect]

theorem finish_of_ne_nil {m : Machine α} (h : m.operators ≠ []) :
    finish m = .error (.unmatchedParenthesis .left) m := by
  unfold finish
  rw [if_neg (by simpa using h)]

/-- A run that leaves a group open leaves its groups and values. -/
theorem left_run_of_open {tokens : List (Except EvalError (Symbol α))} {program : List (Symbol α)}
    {frame : Frame} {outer : List Frame} {values : List α}
    (h : Script.ofTokens [Frame.opened] tokens = ⟨program, .ok (frame :: outer)⟩)
    (hr : Postfix.run A program [] = .ok values) :
    (left (run A (.ok .parenLeft :: tokens) empty)).operators = Frame.stack (frame :: outer) ∧
      (left (run A (.ok .parenLeft :: tokens) empty)).values = values := by
  let opening : Machine α := ⟨[.parenLeft], [], [.dispatched .parenLeft]⟩
  have started : opening.operators = Frame.stack [Frame.opened] := rfl
  have fed := effect_feed (A := A) started tokens
  rw [h, Script.perform_ok hr] at fed
  change (left ((feed A false tokens >>= fun _ => finish) opening)).operators = _ ∧
    (left ((feed A false tokens >>= fun _ => finish) opening)).values = _
  change effect (feed A false tokens opening) = .ok (Frame.stack (frame :: outer), values) at fed
  cases hf : feed A false tokens opening with
  | error e m =>
    rw [hf] at fed
    cases fed
  | ok u m =>
    rw [hf] at fed
    obtain ⟨hm, rfl⟩ := Prod.mk.inj (Except.ok.inj fed)
    have nonempty : m.operators ≠ [] := by
      rw [hm]
      exact fun hnil => List.cons_ne_nil _ _ (Frame.stack_eq_nil.1 hnil)
    have stays : (feed A false tokens >>= fun _ => finish) opening =
        .error (.unmatchedParenthesis .left) m := by
      change EStateM.bind _ _ _ = _
      rw [EStateM.bind, hf]
      exact finish_of_ne_nil nonempty
    rw [stays]
    exact ⟨hm, rfl⟩

/-- With a group open and no function on top, closing the group fails exactly if its program
does. -/
theorem outcome_closeGroup_iff {frame : Frame} {outer : List Frame} {m : Machine α}
    (hm : m.operators = Frame.stack (frame :: outer)) (hf : frame.function = none) :
    outcome (closeGroup A m) = .error .stackUnderflow ↔
      ∃ e, Postfix.run A (frame.pending.map .operator ++ Frame.callee outer) m.values =
        .error e := by
  rw [outcome_eq_error_iff, effect_closeGroup hm hf]
  cases hr : Postfix.run A (frame.pending.map .operator ++ Frame.callee outer) m.values with
  | ok values => simp [Except.map]
  | error e => simp [Except.map, Postfix.run_error hr]

end Machine

namespace SymbolTable

variable {table : SymbolTable}

/-- To close one more group of what an evaluation leaves behind takes operands that are not
there. -/
def Starves (table : SymbolTable) (A : Arithmetic Float) (expression : String) : Prop :=
  ∃ source, prepare expression = .ok source ∧
    Machine.outcome (Machine.closeGroup A
      (Machine.left (Machine.run A (table.tokens source) .empty))) = .error .stackUnderflow

namespace Built

variable (built : table.Built) (A : Arithmetic Float) {expression : String}

include built

/-! ## One pair of parentheses -/

theorem evaluate_parentheses (expression : String) :
    table.evaluate A ("(" ++ expression ++ ")") =
      (Script.ofTokens [Frame.opened] (.ok .parenLeft ::
        (table.scan (kept expression) ++ [.ok .parenRight]) ++ [.ok .parenRight])).outcome A := by
  have chars : kept ("(" ++ expression ++ ")") = '(' :: kept expression ++ [')'] := by
    rw [kept_append, kept_append]
    rfl
  rw [built.evaluate_eq, chars, if_neg (by simp), built.scan_group]

variable {A}

/-- An expression whose groups are all closed runs the same program in parentheses. -/
theorem evaluate_parentheses_of_closed (hgroups : (table.script expression).groups = .ok []) :
    table.evaluate A ("(" ++ expression ++ ")") = (table.script expression).outcome A := by
  have hscript := Script.eq_of_groups hgroups
  have inner : Script.ofTokens [Frame.opened]
      (.ok .parenLeft :: (table.scan (kept expression) ++ [.ok .parenRight])) =
      ⟨(table.script expression).program, .ok [Frame.opened]⟩ :=
    Script.ofTokens_group hscript rfl []
  rw [built.evaluate_parentheses, Script.ofTokens_append_eq_ok inner
    (Script.ofTokens_singleton_of_turn (Frame.turn_parenRight rfl)), hscript]
  exact congrArg (fun program => Script.outcome A ⟨program, .ok []⟩) (List.append_nil _)

theorem evaluate_parentheses_of_error {e : EvalError}
    (hgroups : (table.script expression).groups = .error e)
    (hright : (table.script expression).outcome A ≠ .error (.unmatchedParenthesis .right)) :
    table.evaluate A ("(" ++ expression ++ ")") = (table.script expression).outcome A := by
  have below : ∀ frame ∈ [Frame.opened].head?, frame.function = none := by
    rintro frame ⟨⟩
    rfl
  rw [built.evaluate_parentheses, List.cons_append,
    Script.ofTokens_cons_of_turn Frame.turn_parenLeft]
  exact Script.outcome_above_of_error hgroups (by simp) hright below [.ok .parenRight]

section Open

variable {program : List (Symbol Float)} {frame : Frame} {outer : List Frame}
  (hscript : table.script expression = ⟨program, .ok (frame :: outer)⟩)

include hscript

theorem evaluate_parentheses_of_open :
    table.evaluate A ("(" ++ expression ++ ")") =
      (Postfix.run A (program ++ (frame.pending.map .operator ++ Frame.callee outer)) []).bind
        fun _ => .error (.unmatchedParenthesis .left) := by
  obtain ⟨frame', outer', h⟩ := Script.ofTokens_parentheses_of_open hscript
  rw [built.evaluate_parentheses, h, Script.outcome_of_groups_cons]

theorem starves_iff {source : String} (hs : prepare expression = .ok source) {values : List Float}
    (hr : Postfix.run A program [] = .ok values) : table.Starves A expression ↔
      ∃ e, Postfix.run A (frame.pending.map .operator ++ Frame.callee outer) values = .error e := by
  have hf : frame.function = none :=
    Script.function_of_ofTokens (congrArg Script.groups hscript) frame rfl
  obtain ⟨hm, hvalues⟩ := Machine.left_run_of_open hscript hr
  rw [← built.tokens_of_prepare hs] at hm hvalues
  have closing := Machine.outcome_closeGroup_iff (A := A) hm hf
  rw [hvalues] at closing
  rw [← closing]
  constructor
  · rintro ⟨source', hs', h⟩
    obtain rfl : source = source' := Except.ok.inj (hs.symm.trans hs')
    exact h
  · exact fun h => ⟨source, hs, h⟩

end Open

/-- An expression that fails for want of a closing parenthesis alone runs all its program. -/
theorem exists_open_of_left
    (h : table.evaluate A expression = .error (.unmatchedParenthesis .left)) :
    ∃ source program frame outer values, prepare expression = .ok source ∧
      table.script expression = ⟨program, .ok (frame :: outer)⟩ ∧
      Postfix.run A program [] = .ok values := by
  obtain ⟨source, hs⟩ := built.exists_prepare (A := A) (by rw [h]; exact nofun)
  rw [built.evaluate_of_prepare hs] at h
  rcases Script.outcome_eq_error h with
    he | hgroups | ⟨-, frame, outer, hgroups⟩ | ⟨_, -, -, -, he⟩
  · cases he
  · rcases built.groups_error hgroups with other | ⟨he, -⟩
    · cases other
    · cases he
  · have hscript := Script.eq_of_groups hgroups
    rw [hscript, Script.outcome_of_groups_cons] at h
    cases hr : Postfix.run A (table.script expression).program [] with
    | ok values => exact ⟨source, _, frame, outer, values, hs, hscript, hr⟩
    | error e =>
      rw [hr, Postfix.run_error hr] at h
      cases h
  · cases he

/-- **One pair of parentheses** changes no outcome but that of an open group. -/
theorem evaluate_parentheses_of_ne
    (hempty : table.evaluate A expression ≠ .error .emptyExpression)
    (hparen : ∀ paren, table.evaluate A expression ≠ .error (.unmatchedParenthesis paren)) :
    table.evaluate A ("(" ++ expression ++ ")") = table.evaluate A expression := by
  obtain ⟨source, hs⟩ := built.exists_prepare hempty
  rw [built.evaluate_of_prepare hs] at hparen ⊢
  cases hgroups : (table.script expression).groups with
  | error e => exact built.evaluate_parentheses_of_error hgroups (hparen .right)
  | ok left =>
    cases left with
    | nil => exact built.evaluate_parentheses_of_closed hgroups
    | cons frame outer =>
      -- the group that is open is not the failure, so the program fails before
      have hleft := hparen .left
      have hscript := Script.eq_of_groups hgroups
      rw [built.evaluate_parentheses_of_open hscript, Postfix.run_append]
      rw [hscript, Script.outcome_of_groups_cons] at hleft ⊢
      cases hr : Postfix.run A (table.script expression).program [] with
      | error e => rfl
      | ok values =>
        rw [hr] at hleft
        exact absurd rfl hleft

/-- One pair of parentheses around an expression that leaves a group open closes that group, if the
operands are there. -/
theorem evaluate_parentheses_of_left
    (h : table.evaluate A expression = .error (.unmatchedParenthesis .left)) :
    (¬ table.Starves A expression →
      table.evaluate A ("(" ++ expression ++ ")") = .error (.unmatchedParenthesis .left)) ∧
    (table.Starves A expression →
      table.evaluate A ("(" ++ expression ++ ")") = .error .stackUnderflow) := by
  obtain ⟨source, program, frame, outer, values, hs, hscript, hr⟩ := built.exists_open_of_left h
  have closing := built.starves_iff hscript hs hr
  rw [built.evaluate_parentheses_of_open hscript, Postfix.run_append, hr, Except.bind, closing]
  cases hclose : Postfix.run A (frame.pending.map .operator ++ Frame.callee outer) values with
  | ok values' => exact ⟨fun _ => rfl, nofun⟩
  | error e =>
    rw [Postfix.run_error hclose]
    exact ⟨fun h => absurd ⟨_, rfl⟩ h, fun _ => rfl⟩

theorem evaluate_parentheses_of_underflow
    (h : table.evaluate A expression = .error .stackUnderflow) :
    table.evaluate A ("(" ++ expression ++ ")") = .error .stackUnderflow := by
  rw [built.evaluate_parentheses_of_ne (by simp [h]) (by simp [h]), h]

/-! ## Any number of pairs -/

theorem evaluate_parenthesized_of_ne
    (hempty : table.evaluate A expression ≠ .error .emptyExpression)
    (hparen : ∀ paren, table.evaluate A expression ≠ .error (.unmatchedParenthesis paren))
    (n : Nat) :
    table.evaluate A (parenthesized n expression) = table.evaluate A expression := by
  induction n with
  | zero => rfl
  | succ n ih =>
    rw [← ih] at hempty hparen
    exact (built.evaluate_parentheses_of_ne hempty hparen).trans ih

/-- The failure for an open group stays until a pair closes a group that wants for operands, and
from then on it is that failure. -/
theorem evaluate_parenthesized_of_left
    (h : table.evaluate A expression = .error (.unmatchedParenthesis .left)) (n : Nat) :
    ((∀ k < n, ¬ table.Starves A (parenthesized k expression)) ∧
      table.evaluate A (parenthesized n expression) = .error (.unmatchedParenthesis .left)) ∨
    ((∃ k < n, table.Starves A (parenthesized k expression)) ∧
      table.evaluate A (parenthesized n expression) = .error .stackUnderflow) := by
  induction n with
  | zero => exact .inl ⟨nofun, h⟩
  | succ n ih =>
    rcases ih with ⟨none, hleft⟩ | ⟨⟨k, hk, starves⟩, hunderflow⟩
    · obtain ⟨fed, starved⟩ := built.evaluate_parentheses_of_left hleft
      by_cases starves : table.Starves A (parenthesized n expression)
      · exact .inr ⟨⟨n, n.lt_succ_self, starves⟩, starved starves⟩
      · refine .inl ⟨fun k hk => ?_, fed starves⟩
        rcases Nat.lt_succ_iff_lt_or_eq.1 hk with hlt | rfl
        · exact none k hlt
        · exact starves
    · exact .inr ⟨⟨k, Nat.lt_succ_of_lt hk, starves⟩,
        built.evaluate_parentheses_of_underflow hunderflow⟩

/-- **Parentheses around a whole expression** do not change its outcome, unless it is blank or one
of its parentheses has no partner. Where a group is open, the failure stays as it is, unless a pair
closes a group that wants for operands. -/
theorem evaluate_parenthesized (A : Arithmetic Float) (expression : String) :
    (table.evaluate A expression ≠ .error .emptyExpression →
      (∀ paren, table.evaluate A expression ≠ .error (.unmatchedParenthesis paren)) →
      ∀ n, table.evaluate A (parenthesized n expression) = table.evaluate A expression) ∧
    (table.evaluate A expression = .error (.unmatchedParenthesis .left) → ∀ n,
      ((∀ k < n, ¬ table.Starves A (parenthesized k expression)) →
        table.evaluate A (parenthesized n expression) = .error (.unmatchedParenthesis .left)) ∧
      ((∃ k < n, table.Starves A (parenthesized k expression)) →
        table.evaluate A (parenthesized n expression) = .error .stackUnderflow)) := by
  refine ⟨built.evaluate_parenthesized_of_ne, fun h n => ?_⟩
  rcases built.evaluate_parenthesized_of_left h n with
    ⟨none, hleft⟩ | ⟨⟨k, hk, starves⟩, hunderflow⟩
  · exact ⟨fun _ => hleft, fun ⟨k, hk, starves⟩ => absurd starves (none k hk)⟩
  · exact ⟨fun none => absurd starves (none k hk), fun _ => hunderflow⟩

end Built

/-- The failure of `+(2` is a missing parenthesis, and that of `(+(2)` a missing operand. -/
theorem evaluate_open_plus :
    standard.evaluate .ieee "+(2" = .error (.unmatchedParenthesis .left) ∧
      standard.evaluate .ieee (parenthesized 1 "+(2") = .error .stackUnderflow := by
  constructor <;> decide +kernel

/-- A value stays. In `+((2` the first pair closes a group without operators, and the second one the
group of `+`. -/
theorem evaluate_parenthesized_plus :
    standard.evaluate .ieee (parenthesized 7 "1 + 2") = .ok 3 ∧
      standard.evaluate .ieee (parenthesized 1 "+((2") = .error (.unmatchedParenthesis .left) ∧
      standard.evaluate .ieee (parenthesized 9 "+((2") = .error .stackUnderflow := by
  have value : standard.evaluate .ieee "1 + 2" = .ok 3 := by decide +kernel
  have fed : ¬ standard.Starves .ieee "+((2" := by
    rintro ⟨source, hs, h⟩
    obtain rfl : "(+((2)" = source := Except.ok.inj hs
    revert h
    decide +kernel
  have starves : standard.Starves .ieee (parenthesized 1 "+((2") :=
    ⟨"((+((2))", rfl, by decide +kernel⟩
  obtain ⟨same, -⟩ := Built.evaluate_parenthesized .standard .ieee "1 + 2"
  obtain ⟨-, groups⟩ := Built.evaluate_parenthesized .standard .ieee "+((2"
  have missing := groups (by decide +kernel)
  refine ⟨(same (by rw [value]; exact nofun) (by rw [value]; exact fun _ => nofun) 7).trans value,
    (missing 1).1 fun k hk => ?_, (missing 9).2 ⟨1, by decide, starves⟩⟩
  obtain rfl : k = 0 := Nat.lt_one_iff.1 hk
  exact fed

end SymbolTable

end Reckoner
