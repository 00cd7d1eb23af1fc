import Mathlib.Data.List.Forall2
import Reckoner.Ieee
import Reckoner.Proofs.Grammar
import Reckoner.Proofs.Joining

/-!
# Calls with any number of arguments

A function is called with expressions that have values, with commas between them. The outcome is
known from the values alone (`Built.evaluate_call`): the function takes the last of them, as many as
it has operands, and any others are left over.

A comma settles what waits in its argument, so each argument `Delivers` its value in a group in
which nothing else waits, whatever commas it has itself (`Built.delivers_of_evaluate`). Behind one
another, with commas between them, arguments deliver all their values (`Script.Delivers.comma`).
-/

namespace Reckoner

variable {α : Type} {A : Arithmetic α}

/-! ## What a call is, and its outcome -/

namespace Builtin

/-- A call with the given arguments, as it is written. -/
def callText (f : Builtin) (arguments : List String) : String :=
  f.name ++ "(" ++ ",".intercalate arguments ++ ")"

/-- The outcome of a call with arguments that have the given values, one or more. -/
def answer (A : Arithmetic α) : Builtin → List α → Except EvalError α
  | unary f, [value] => .ok (A.unary f value)
  | unary _, values => .error (.leftoverValues values.length)
  | binary _, [_] => .error .stackUnderflow
  | binary f, [first, second] => .ok (A.binary f first second)
  | binary _, values => .error (.leftoverValues (values.length - 1))

theorem answer_unary_of_two_le (f : UnaryBuiltin) :
    ∀ {values : List α}, 2 ≤ values.length →
      (unary f).answer A values = .error (.leftoverValues values.length)
  | _ :: _ :: _, _ => rfl

theorem answer_binary_of_three_le (f : BinaryBuiltin) :
    ∀ {values : List α}, 3 ≤ values.length →
      (binary f).answer A values = .error (.leftoverValues (values.length - 1))
  | _ :: _ :: _ :: _, _ => rfl

end Builtin

namespace Script

/-- A function that is applied to values, top first, and to nothing else. -/
theorem conclude_act (f : Builtin) : ∀ {values : List α}, values ≠ [] →
    ((Symbol.function f).act A values).bind (fun left => conclude ([], left)) =
      f.answer A values.reverse
  | [], h => absurd rfl h
  | [_], _ => by cases f <;> rfl
  | [_, _], _ => by cases f <;> rfl
  | _ :: _ :: _ :: _, _ => by
    cases f with
    | unary f =>
      rw [Builtin.answer_unary_of_two_le f (by simp), List.length_reverse]
      rfl
    | binary f =>
      rw [Builtin.answer_binary_of_three_le f (by simp), List.length_reverse]
      rfl

/-! ## Groups that deliver values -/

/-- In a group in which no operator waits, the tokens stay in the group, and when it is settled they
have put values on top of all others. -/
def Delivers (A : Arithmetic α) (tokens : List (Except EvalError (Symbol α))) (values : List α) :
    Prop :=
  ∀ frame : Frame, frame.function = none → frame.pending = [] → ∀ outer : List Frame,
    ∃ program last, ofTokens (frame :: outer) tokens = ⟨program, .ok (last :: outer)⟩ ∧
      last.function = none ∧
      ∀ below, Postfix.run A (program ++ last.pending.map .operator) below =
        .ok (values.reverse ++ below)

/-- As long as a group is left, no symbol closes the last one. -/
theorem firstAt_settles_nil {symbols program : List (Symbol α)} {frames left : List Frame}
    {depth : Nat} (h : ofTokens frames (symbols.map .ok) = ⟨program, .ok left⟩)
    (hd : frames.length = depth + 1) (hl : left ≠ []) :
    Translation.firstAt (Frame.settles []) depth symbols = none := by
  rw [Option.eq_none_iff_forall_ne_some]
  intro n hn
  obtain ⟨before, symbol, after, rfl, hstop, hcount⟩ := Translation.exists_of_firstAt hn
  obtain rfl : symbol = .parenRight := by
    cases symbol with
    | parenRight => rfl
    | literal _ | named _ | parenLeft | comma | operator _ | function _ => cases hstop
  rw [List.append_cons, List.map_append] at h
  obtain ⟨first, second, middle, hfirst, hsecond, -⟩ := ofTokens_append_inv h
  obtain ⟨symbols, heq, hlen⟩ := length_of_ofTokens hfirst
  obtain rfl := (List.map_inj_right fun _ _ => Except.ok.inj).1 heq
  have closes : [(Symbol.parenRight : Symbol α)].countP Symbol.closes = 1 := rfl
  have opens : [(Symbol.parenRight : Symbol α)].countP Symbol.opens = 0 := rfl
  rw [List.countP_append, List.countP_append] at hlen
  obtain rfl : middle = [] := List.length_eq_zero_iff.1 (by omega)
  exact hl (eq_nil_of_ofTokens_nil hsecond)

/-- Symbols that come to one value in a group of their own deliver it in any group. -/
theorem delivers_of_run {symbols program : List (Symbol α)} {last : Frame} {value : α}
    (h : ofTokens [Frame.opened] (symbols.map .ok) = ⟨program, .ok [last]⟩)
    (hf : last.function = none)
    (hr : Postfix.run A (program ++ last.pending.map .operator) [] = .ok [value]) :
    Delivers A (symbols.map .ok) [value] := by
  intro frame hframe hpending outer
  -- commas that are already in the group make no difference, since nothing looks at them
  have start : Frame.Beneath [] [Frame.opened] [frame] := .last hframe hpending
  obtain ⟨left, hs, hb⟩ := ofTokens_beneath h start rfl (firstAt_settles_nil h rfl (by simp))
  cases hb with
  | cons _ h => cases h
  | @last _ last' hfunction hpending' =>
    rw [List.append_nil] at hpending'
    refine ⟨program, last', ofTokens_above hs (by simp) nofun, hfunction.trans hf, fun below => ?_⟩
    rw [hpending']
    exact Postfix.run_frame hr below

namespace Delivers

variable {tokens tokens' : List (Except EvalError (Symbol α))} {values values' : List α}

/-- **A comma settles what is in front of it**, and what follows does not mix with that. -/
theorem comma (h : Delivers A tokens values) (h' : Delivers A tokens' values') :
    Delivers A (tokens ++ .ok .comma :: tokens') (values ++ values') := by
  intro frame hframe hpending outer
  obtain ⟨program, middle, hs, hm, hr⟩ := h frame hframe hpending outer
  -- behind the comma no operator waits, whatever the first tokens have left waiting
  obtain ⟨program', last, hs', hl, hr'⟩ := h' middle.advance hm rfl outer
  refine ⟨_, last, ofTokens_append_eq_ok hs (ofTokens_cons_eq_of_turn (Frame.turn_comma hm) hs'),
    hl, fun below => ?_⟩
  rw [← List.append_assoc, List.append_assoc, Postfix.run_append, hr, Except.bind, hr',
    List.reverse_append, List.append_assoc]

/-- The values that are delivered are those that are left at the end. -/
theorem outcome_group (h : Delivers A tokens values) :
    (ofTokens [Frame.opened] (tokens ++ [.ok .parenRight])).outcome A =
      conclude ([], values.reverse) := by
  obtain ⟨program, last, hs, hl, hr⟩ := h .opened rfl rfl []
  have closed : ofTokens [Frame.opened] (tokens ++ [.ok .parenRight]) =
      ⟨program ++ last.pending.map .operator, .ok []⟩ := by
    rw [ofTokens_sum_parenRight hs hl rfl, Frame.callee, List.append_nil]
    rfl
  rw [closed, outcome_of_groups_nil, hr, List.append_nil]
  rfl

/-- **A function is applied to the values of its group**, and nothing else is left. -/
theorem outcome_call (h : Delivers A tokens values) (hne : values ≠ []) (f : Builtin) :
    (ofTokens [Frame.opened] (.ok (.function f) :: .ok .parenLeft ::
        (tokens ++ [.ok .parenRight]) ++ [.ok .parenRight])).outcome A = f.answer A values := by
  obtain ⟨program, last, hs, hl, hr⟩ := h .opened rfl rfl [Frame.opened.call f]
  have called : ofTokens [Frame.opened] (.ok (.function f) :: .ok .parenLeft ::
      (tokens ++ [.ok .parenRight])) =
      ⟨program ++ last.pending.map .operator ++ [.function f], .ok [Frame.opened]⟩ :=
    ofTokens_call rfl f hs hl rfl
  have closed := ofTokens_sum_parenRight called rfl (List.append_nil _)
  rw [Frame.callee, List.append_nil, List.modifyHead_nil] at closed
  rw [closed, outcome_of_groups_nil, Postfix.run_append, hr, List.append_nil, Except.bind,
    Postfix.run_singleton, conclude_act f (by simpa using hne), List.reverse_reverse]

end Delivers

end Script

namespace SymbolTable

variable {table : SymbolTable}

theorem kept_comma : kept "," = [','] := rfl

namespace Built

variable (built : table.Built) {A : Arithmetic Float}

include built

/-- An expression that has a value delivers it. -/
theorem delivers_of_evaluate {expression : String} {value : Float}
    (h : table.evaluate A expression = .ok value) :
    Script.Delivers A (table.scan (kept expression)) [value] := by
  obtain ⟨symbols, program, last, hscan, hscript, hf, hrun⟩ := built.evaluate_eq_ok_iff.1 h
  rw [hscan]
  exact Script.delivers_of_run hscript hf hrun

/-- Expressions with commas between them deliver all their values. -/
theorem delivers_intercalate {expressions : List String} {values : List Float}
    (h : List.Forall₂ (fun expression value => table.evaluate A expression = .ok value)
      expressions values) (hne : expressions ≠ []) :
    Script.Delivers A (table.scan (kept (",".intercalate expressions))) values := by
  induction h with
  | nil => exact absurd rfl hne
  | @cons expression value rest values hvalue hrest ih =>
    have first := built.delivers_of_evaluate hvalue
    cases hrest with
    | nil => rwa [String.intercalate_singleton]
    | @cons next _ _ _ _ _ =>
      rw [String.intercalate_cons_cons, kept_append, kept_append, kept_comma, List.append_assoc,
        List.singleton_append, scan_append_delimiter rfl, built.scan_comma]
      exact first.comma (ih (by simp))

theorem scan_callText (f : Builtin) (expressions : List String) :
    table.scan (kept (f.callText expressions)) = .ok (.function f) :: .ok .parenLeft ::
      (table.scan (kept (",".intercalate expressions)) ++ [.ok .parenRight]) := by
  have name := kept_eq_self (isName_builtin f).isBlank
  have parenLeft : kept "(" = ['('] := rfl
  have parenRight : kept ")" = [')'] := rfl
  rw [Builtin.callText, kept_append, kept_append, kept_append, name, parenLeft, parenRight,
    List.append_assoc, List.append_assoc, List.singleton_append]
  exact built.scan_call f _

/-- **The call law.** A call with expressions that have values has the outcome that the function
gives on these values, and the same expressions without a function leave all their values. -/
theorem evaluate_call {expressions : List String} {values : List Float}
    (h : List.Forall₂ (fun expression value => table.evaluate A expression = .ok value)
      expressions values) (hne : expressions ≠ []) :
    (∀ f : Builtin, table.evaluate A (f.callText expressions) = f.answer A values) ∧
      (2 ≤ expressions.length → table.evaluate A (",".intercalate expressions) =
        .error (.leftoverValues expressions.length)) := by
  have delivers := built.delivers_intercalate h hne
  have length := h.length_eq
  constructor
  · intro f
    have hvalues : values ≠ [] := by
      rwa [← List.length_pos_iff, ← length, List.length_pos_iff]
    have hkept : kept (f.callText expressions) ≠ [] := by
      intro hnil
      have hscan := built.scan_callText f expressions
      rw [hnil] at hscan
      cases hscan
    rw [built.evaluate_eq, if_neg hkept, built.scan_callText]
    exact delivers.outcome_call hvalues f
  · intro htwo
    have hkept : kept (",".intercalate expressions) ≠ [] := by
      match expressions, htwo with
      | _ :: _ :: _, _ =>
        rw [String.intercalate_cons_cons, kept_append, kept_append, kept_comma]
        simp
    rw [built.evaluate_eq, if_neg hkept, delivers.outcome_group,
      Script.conclude_of_two_le (by rw [List.length_reverse]; omega), List.length_reverse, length]

end Built

/-- Arguments with commas and values of their own, which the function does not mix. -/
theorem evaluate_call_max :
    standard.evaluate .ieee "max(1,2+,7-2)" = .ok 5 ∧
      standard.evaluate .ieee "sin(1,2+,7-2)" = .error (.leftoverValues 2) ∧
      standard.evaluate .ieee "1,2+,7-2" = .error (.leftoverValues 2) := by
  have values : List.Forall₂
      (fun expression value => standard.evaluate .ieee expression = .ok value)
      ["1,2+", "7-2"] [3, 5] := .cons (by decide +kernel) (.cons (by decide +kernel) .nil)
  obtain ⟨call, list⟩ := Built.evaluate_call .standard values (by simp)
  have max := call (.binary .max)
  have sin := call (.unary .sin)
  have answer : (Builtin.binary .max).answer .ieee [3, 5] = .ok 5 := by decide +kernel
  exact ⟨max.trans answer, sin, list (by simp)⟩

end SymbolTable

end Reckoner
