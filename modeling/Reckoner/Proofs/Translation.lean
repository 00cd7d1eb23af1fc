import Mathlib.Data.List.Basic
import Reckoner.Ieee
import Reckoner.Proofs.Evaluation

/-!
# The translation to postfix form

Where the symbols of an expression are applied depends on their positions alone. A number is put on
the stack where it stands. An operator is applied at the first symbol that ends its right operand,
which is an operator of its own group that binds no tighter, or the comma or parenthesis behind its
argument. A function is applied at the parenthesis that closes its arguments. `postfixForm` puts
this together, and `cut` finds the first structural failure of an expression. The evaluator computes
nothing else (`SymbolTable.Built.evaluate_eq_outcome`).

For the proof the groups that wait are given positions too: `owed` is what they have applied at each
position of the symbols to come. A turn hands every position over to the groups that it leaves
(`owedBy_of_turn`), so that the programs of all turns are the postfix form (`program_eq`).
-/

namespace Reckoner

variable {α : Type}

namespace Translation

/-! ## Where symbols are applied -/

/-- The depth behind a symbol, unless it closes the group that depth is counted from. -/
def depthAfter : Nat → Symbol α → Option Nat
  | depth, .parenLeft => some (depth + 1)
  | 0, .parenRight => none
  | depth + 1, .parenRight => some depth
  | depth, _ => some depth

/-- The first position at which a symbol with `stop` stands in a group itself and not in a group
inside of it. The list begins `depth` groups further inside. -/
def firstAt (stop : Symbol α → Bool) : Nat → List (Symbol α) → Option Nat
  | _, [] => none
  | depth, symbol :: rest =>
    if depth = 0 ∧ stop symbol = true then some 0
    else ((depthAfter depth symbol).bind fun depth => firstAt stop depth rest).map (· + 1)

/-- Whether a symbol ends the right operand of an operator. -/
def endsOperand (op : Operator) : Symbol α → Bool
  | .operator next => next.priority ≤ op.priority
  | .comma | .parenRight => true
  | _ => false

/-- How far behind a symbol the position is at which it is applied. -/
def delay : Symbol α → List (Symbol α) → Option Nat
  | .operator op, rest => (firstAt (endsOperand op) 0 rest).map (· + 1)
  | .function _, .parenLeft :: rest => (firstAt Symbol.closes 0 rest).map (· + 2)
  | _, _ => none

/-- The position at which the symbol at position `i` is applied. -/
def dueAt (symbols : List (Symbol α)) (i : Nat) : Option Nat :=
  match symbols.drop i with
  | symbol :: rest => (delay symbol rest).map (i + ·)
  | [] => none

/-- The symbols that are applied at a position, the most recent first. -/
def appliedAt (symbols : List (Symbol α)) (j : Nat) : List (Symbol α) :=
  ((List.range j).reverse.filter fun i => dueAt symbols i = some j).filterMap fun i => symbols[i]?

/-- What a symbol puts on the stack where it stands. -/
def pushed : Symbol α → List (Symbol α)
  | .literal value => [.literal value]
  | .named value => [.named value]
  | _ => []

/-- What is done at a position: what falls due there, then the symbol itself. -/
def emittedAt (symbols : List (Symbol α)) (j : Nat) : List (Symbol α) :=
  appliedAt symbols j ++ symbols[j]?.toList.flatMap pushed

/-- The postfix form of a list of symbols. -/
def postfixForm (symbols : List (Symbol α)) : List (Symbol α) :=
  (List.range symbols.length).flatMap (emittedAt symbols)

/-! ## Structural failures -/

/-- Whether every group is closed. -/
def isBalanced (symbols : List (Symbol α)) : Bool :=
  symbols.countP Symbol.opens = symbols.countP Symbol.closes

/-- Why a symbol cannot come behind others: all of their groups are closed, or the last one is a
function without arguments. -/
def fault? (before : List (Symbol α)) (symbol : Symbol α) : Option EvalError :=
  if !before.isEmpty && isBalanced before then some (.unmatchedParenthesis .right)
  else if symbol.opens then none
  else (before.getLast?.bind Symbol.function?).map .danglingFunction

/-- The symbols in front of the first structural failure of tokens, and this failure. -/
def cut (before : List (Symbol α)) :
    List (Except EvalError (Symbol α)) → List (Symbol α) × Option EvalError
  | [] => (before, if isBalanced before then none else some (.unmatchedParenthesis .left))
  | .error e :: _ => (before, some e)
  | .ok symbol :: tokens =>
    match fault? before symbol with
    | some e => (before, some e)
    | none => cut (before ++ [symbol]) tokens

/-- The outcome behind the last symbol: the structural failure, if there is one, or else the only
value. -/
def conclude : Option EvalError → List α → Except EvalError α
  | some e, _ => .error e
  | none, [] => .error .stackUnderflow
  | none, [value] => .ok value
  | none, values => .error (.leftoverValues values.length)

/-- The outcome of tokens. A missing operand comes before the structural failure. -/
def outcome (A : Arithmetic α) (tokens : List (Except EvalError (Symbol α))) :
    Except EvalError α :=
  (Postfix.run A (postfixForm (cut [] tokens).1) []).bind (conclude (cut [] tokens).2)

/-! ## Positions behind the first symbol -/

theorem dueAt_succ (symbol : Symbol α) (rest : List (Symbol α)) (i : Nat) :
    dueAt (symbol :: rest) (i + 1) = (dueAt rest i).map (· + 1) := by
  unfold dueAt
  rw [List.drop_succ_cons]
  cases rest.drop i with
  | nil => rfl
  | cons next rest =>
    simp only [Option.map_map]
    congr 1
    funext n
    simp only [Function.comp]
    omega

theorem appliedAt_succ (symbol : Symbol α) (rest : List (Symbol α)) (j : Nat) :
    appliedAt (symbol :: rest) (j + 1) =
      appliedAt rest j ++ if delay symbol rest = some (j + 1) then [symbol] else [] := by
  have hdue : ∀ i, (dueAt (symbol :: rest) (i + 1) = some (j + 1)) = (dueAt rest i = some j) := by
    intro i
    rw [dueAt_succ]
    simp
  have hzero : dueAt (symbol :: rest) 0 = delay symbol rest := by
    simp [dueAt]
  unfold appliedAt
  -- the first symbol is the least recent one, so it comes last
  rw [List.range_succ_eq_map, List.reverse_cons, List.filter_append, List.filterMap_append,
    ← List.map_reverse, List.filter_map, List.filterMap_map]
  congr 1
  · simp only [Function.comp_def, Nat.succ_eq_add_one, hdue, List.getElem?_cons_succ]
  · simp only [List.filter_cons, hzero]
    by_cases hd : delay symbol rest = some (j + 1) <;> simp [hd]

theorem postfixForm_cons (symbol : Symbol α) (rest : List (Symbol α)) :
    postfixForm (symbol :: rest) = pushed symbol ++
      (List.range rest.length).flatMap fun j => appliedAt rest j ++
        (if delay symbol rest = some (j + 1) then [symbol] else []) ++
          rest[j]?.toList.flatMap pushed := by
  unfold postfixForm
  rw [List.length_cons, List.range_succ_eq_map, List.flatMap_cons, List.flatMap_map]
  congr 1
  · simp [emittedAt, appliedAt]
  · simp only [emittedAt, Nat.succ_eq_add_one, appliedAt_succ, List.getElem?_cons_succ]

/-! ## Positions of what waits -/

section Positions

variable {stop : Symbol α → Bool} {depth : Nat} {symbol : Symbol α}

theorem firstAt_stop (h : stop symbol = true) (rest : List (Symbol α)) :
    firstAt stop 0 (symbol :: rest) = some 0 := by
  rw [firstAt, if_pos ⟨rfl, h⟩]

theorem firstAt_pass (h : ¬ (depth = 0 ∧ stop symbol = true)) {depth' : Nat}
    (hd : depthAfter depth symbol = some depth') (rest : List (Symbol α)) :
    firstAt stop depth (symbol :: rest) = (firstAt stop depth' rest).map (· + 1) := by
  rw [firstAt, if_neg h, hd]
  rfl

theorem depthAfter_plain (ho : symbol.opens = false) (hc : symbol.closes = false) :
    depthAfter depth symbol = some depth := by
  cases symbol with
  | parenLeft => cases ho
  | parenRight => cases hc
  | literal _ | named _ | comma | operator _ | function _ => rfl

/-- Behind a symbol that does not stop it, a search goes on. -/
theorem firstAt_cons_eq_none {rest : List (Symbol α)} :
    firstAt stop depth (symbol :: rest) = none ↔ (depth = 0 → stop symbol = false) ∧
      ∀ depth', depthAfter depth symbol = some depth' → firstAt stop depth' rest = none := by
  rw [firstAt]
  split
  · next hstop => simp [hstop]
  · next hgo =>
    cases depthAfter depth symbol <;> simp_all

theorem depthAfter_eq_some_iff {depth' : Nat} : depthAfter depth symbol = some depth' ↔
    depth' + symbol.closes.toNat = depth + symbol.opens.toNat := by
  cases symbol with
  | parenRight =>
    cases depth with
    | zero => simp [depthAfter, Symbol.closes, Symbol.opens]
    | succ depth => simp [depthAfter, Symbol.closes, Symbol.opens, eq_comm]
  | literal _ | named _ | parenLeft | comma | operator _ | function _ =>
    simp [depthAfter, Symbol.closes, Symbol.opens, eq_comm]

/-- What a search finds is not inside of a group that is opened on the way. -/
theorem exists_of_firstAt {symbols : List (Symbol α)} {n : Nat}
    (h : firstAt stop depth symbols = some n) :
    ∃ before symbol after, symbols = before ++ symbol :: after ∧ stop symbol = true ∧
      before.countP Symbol.closes = depth + before.countP Symbol.opens := by
  induction symbols generalizing depth n with
  | nil => cases h
  | cons symbol rest ih =>
    rw [firstAt] at h
    split at h
    · next hstop => exact ⟨[], symbol, rest, rfl, hstop.2, hstop.1.symm⟩
    · obtain ⟨m, hm, -⟩ := Option.map_eq_some_iff.1 h
      obtain ⟨depth', hd, hrest⟩ := Option.bind_eq_some_iff.1 hm
      obtain ⟨before, found, after, rfl, hstop, hcount⟩ := ih hrest
      refine ⟨symbol :: before, found, after, rfl, hstop, ?_⟩
      have shift := depthAfter_eq_some_iff.1 hd
      rw [countP_cons_toNat, countP_cons_toNat]
      omega

end Positions

/-- The position at which the function of a group is applied. -/
def functionDue : Nat → List (Symbol α) → Option Nat
  | 0, .parenLeft :: rest => (firstAt Symbol.closes 0 rest).map (· + 1)
  | 0, _ => none
  | depth + 1, rest => firstAt Symbol.closes depth rest

/-- The symbols of a group that are applied at a position, top first. The symbols to come begin
inside of further groups, as many as `depth`. -/
def owed (frame : Frame) (depth : Nat) (rest : List (Symbol α)) (j : Nat) : List (Symbol α) :=
  (frame.function.toList.filter fun _ => functionDue depth rest = some j).map .function ++
    (frame.pending.filter fun op => firstAt (endsOperand op) depth rest = some j).map .operator

/-- The symbols of groups that are applied at a position, top first. -/
def owedBy : Nat → List Frame → List (Symbol α) → Nat → List (Symbol α)
  | _, [], _, _ => []
  | depth, frame :: outer, rest, j => owed frame depth rest j ++ owedBy (depth + 1) outer rest j

/-- Behind a symbol the positions that were counted at one depth are counted at another. -/
structure Shifts (symbol : Symbol α) (rest : List (Symbol α)) (depth depth' : Nat) : Prop where
  function : functionDue depth (symbol :: rest) = (functionDue depth' rest).map (· + 1)
  operator : ∀ op, firstAt (endsOperand op) depth (symbol :: rest) =
    (firstAt (endsOperand op) depth' rest).map (· + 1)

section Owed

variable {frame : Frame} {symbol : Symbol α} {rest : List (Symbol α)} {depth depth' : Nat}

theorem shifts_parenLeft (rest : List (Symbol α)) :
    ∀ depth, Shifts .parenLeft rest (0 + depth) (1 + depth)
  | 0 => ⟨rfl, fun _ => firstAt_pass (by simp [endsOperand]) rfl rest⟩
  | depth + 1 => by
    rw [Nat.zero_add, Nat.add_comm 1]
    exact ⟨firstAt_pass (by simp [Symbol.closes]) rfl rest,
      fun _ => firstAt_pass (by simp) rfl rest⟩

theorem shifts_parenRight (rest : List (Symbol α)) (depth : Nat) :
    Shifts .parenRight rest (2 + depth) (1 + depth) := by
  rw [Nat.add_comm 2, Nat.add_comm 1]
  exact ⟨firstAt_pass (by simp) rfl rest, fun _ => firstAt_pass (by simp) rfl rest⟩

theorem shifts_plain (ho : symbol.opens = false) (hc : symbol.closes = false)
    (rest : List (Symbol α)) (depth : Nat) : Shifts symbol rest (1 + depth) (1 + depth) := by
  rw [Nat.add_comm 1]
  refine ⟨?_, fun op => firstAt_pass (by simp) (depthAfter_plain ho hc) rest⟩
  exact firstAt_pass (by simp [hc]) (depthAfter_plain ho hc) rest

theorem owed_zero (h : Shifts symbol rest depth depth') :
    owed frame depth (symbol :: rest) 0 = [] := by
  simp [owed, h.function, h.operator]

theorem owed_succ (h : Shifts symbol rest depth depth') (j : Nat) :
    owed frame depth (symbol :: rest) (j + 1) = owed frame depth' rest j := by
  simp [owed, h.function, h.operator]

theorem shifts_next (h : ∀ n, Shifts symbol rest (depth + n) (depth' + n)) (n : Nat) :
    Shifts symbol rest (depth + 1 + n) (depth' + 1 + n) := by
  rw [Nat.add_assoc, Nat.add_assoc, Nat.add_comm 1]
  exact h (n + 1)

theorem owedBy_zero (h : ∀ n, Shifts symbol rest (depth + n) (depth' + n)) (frames : List Frame) :
    owedBy depth frames (symbol :: rest) 0 = [] := by
  induction frames generalizing depth depth' with
  | nil => rfl
  | cons frame outer ih =>
    have here : Shifts symbol rest depth depth' := h 0
    rw [owedBy, owed_zero here, ih (shifts_next h)]
    rfl

theorem owedBy_succ (h : ∀ n, Shifts symbol rest (depth + n) (depth' + n)) (frames : List Frame)
    (j : Nat) : owedBy depth frames (symbol :: rest) (j + 1) = owedBy depth' frames rest j := by
  induction frames generalizing depth depth' with
  | nil => rfl
  | cons frame outer ih =>
    have here : Shifts symbol rest depth depth' := h 0
    rw [owedBy, owedBy, owed_succ here, ih (shifts_next h)]

/-- At a symbol the innermost group has the operators applied whose operands it ends. -/
theorem owed_top_zero (hf : frame.function = none) (symbol : Symbol α) (rest : List (Symbol α)) :
    owed frame 0 (symbol :: rest) 0 =
      (frame.pending.filter (endsOperand · symbol)).map .operator := by
  rw [owed, hf, Option.toList_none, List.filter_nil, List.map_nil, List.nil_append]
  congr 1
  refine List.filter_congr fun op _ => ?_
  cases he : endsOperand op symbol with
  | true => simp [firstAt_stop he]
  | false => cases hd : depthAfter 0 symbol <;> simp [firstAt, he, hd]

theorem owed_top_succ (hf : frame.function = none) (ho : symbol.opens = false)
    (rest : List (Symbol α)) (j : Nat) :
    owed frame 0 (symbol :: rest) (j + 1) =
      ((frame.pending.filter (!endsOperand · symbol)).filter fun op =>
        firstAt (endsOperand op) 0 rest = some j).map .operator := by
  rw [owed, hf, Option.toList_none, List.filter_nil, List.map_nil, List.nil_append,
    List.filter_filter]
  congr 1
  refine List.filter_congr fun op _ => ?_
  cases he : endsOperand op symbol with
  | true => simp [firstAt_stop he]
  | false =>
    have hc : symbol.closes = false := by
      cases symbol <;> first | rfl | cases he
    have pass : firstAt (endsOperand op) 0 (symbol :: rest) =
        (firstAt (endsOperand op) 0 rest).map (· + 1) :=
      firstAt_pass (by simp [he]) (depthAfter_plain ho hc) rest
    simp [pass]

end Owed

/-! ## One turn -/

section Turn

variable {frame : Frame} {outer frames : List Frame} {symbol : Symbol α} {program : List (Symbol α)}

theorem owedBy_parenRight_zero (outer : List Frame) (rest : List (Symbol α)) :
    owedBy 1 outer (.parenRight :: rest) 0 = Frame.callee outer := by
  cases outer with
  | nil => rfl
  | cons frame outer =>
    have hpass : ∀ op, firstAt (endsOperand op) 1 (.parenRight :: rest) =
        (firstAt (endsOperand op) 0 rest).map (· + 1) := fun op => firstAt_pass (by simp) rfl rest
    have hstop : firstAt Symbol.closes 0 (.parenRight :: rest) = some 0 := rfl
    rw [owedBy, owedBy_zero (shifts_parenRight rest)]
    simp [owed, functionDue, hstop, hpass, Frame.callee]

theorem owedBy_parenRight_succ (outer : List Frame) (rest : List (Symbol α)) (j : Nat) :
    owedBy 1 outer (.parenRight :: rest) (j + 1) =
      owedBy 0 (outer.modifyHead .answered) rest j := by
  cases outer with
  | nil => rfl
  | cons frame outer =>
    have hpass : ∀ op, firstAt (endsOperand op) 1 (.parenRight :: rest) =
        (firstAt (endsOperand op) 0 rest).map (· + 1) := fun op => firstAt_pass (by simp) rfl rest
    have hstop : firstAt Symbol.closes 0 (.parenRight :: rest) = some 0 := rfl
    rw [owedBy, owedBy_succ (shifts_parenRight rest), List.modifyHead_cons, owedBy]
    simp [owed, functionDue, hstop, hpass, Frame.answered, Frame.pending]

/-- **A turn runs what falls due at its symbol**, and then the symbol itself. -/
theorem program_of_turn (h : frame.turn outer symbol = .ok (program, frames))
    (rest : List (Symbol α)) :
    owedBy 0 (frame :: outer) (symbol :: rest) 0 ++ pushed symbol = program := by
  obtain ⟨ht, hf⟩ := Frame.turn_ok h
  cases hs : symbol.opens with
  | true =>
    obtain rfl := Symbol.eq_parenLeft hs
    cases ht
    rw [owedBy_zero (shifts_parenLeft rest)]
    rfl
  | false =>
    rw [owedBy, owed_top_zero (hf.resolve_left (by simp [hs]))]
    cases symbol with
    | parenLeft => cases hs
    | literal _ | named _ | comma | function _ =>
      cases ht
      rw [owedBy_zero (shifts_plain rfl rfl rest)]
      simp [endsOperand, pushed]
    | operator op =>
      cases ht
      rw [owedBy_zero (shifts_plain rfl rfl rest), ← Frame.filter_pending]
      simp [endsOperand, pushed]
    | parenRight =>
      cases ht
      rw [owedBy_parenRight_zero]
      simp [endsOperand, pushed]

theorem delay_function (f : Builtin) (rest : List (Symbol α)) :
    delay (.function f) rest = (functionDue 0 rest).map (· + 1) := by
  match rest with
  | .parenLeft :: rest =>
    simp only [delay, functionDue, Option.map_map]
    rfl
  | [] | .literal _ :: _ | .named _ :: _ | .parenRight :: _ | .comma :: _ | .operator _ :: _
  | .function _ :: _ => rfl

/-- **A turn hands later positions over** to the groups that it leaves. -/
theorem owedBy_of_turn (h : frame.turn outer symbol = .ok (program, frames))
    (rest : List (Symbol α)) (j : Nat) :
    (if delay symbol rest = some (j + 1) then [symbol] else []) ++
      owedBy 0 (frame :: outer) (symbol :: rest) (j + 1) = owedBy 0 frames rest j := by
  obtain ⟨ht, hf⟩ := Frame.turn_ok h
  cases hs : symbol.opens with
  | true =>
    obtain rfl := Symbol.eq_parenLeft hs
    cases ht
    rw [owedBy_succ (shifts_parenLeft rest), owedBy]
    rfl
  | false =>
    have hn : frame.function = none := hf.resolve_left (by simp [hs])
    rw [owedBy, owed_top_succ hn hs]
    cases symbol with
    | parenLeft => cases hs
    | literal _ | named _ =>
      cases ht
      rw [owedBy_succ (shifts_plain rfl rfl rest), owedBy]
      simp [endsOperand, delay, owed, hn]
    | function f =>
      cases ht
      rw [owedBy_succ (shifts_plain rfl rfl rest), owedBy, delay_function]
      by_cases hd : functionDue 0 rest = some j <;>
        simp [endsOperand, owed, Frame.call, Frame.pending, hd]
    | operator op =>
      cases ht
      rw [owedBy_succ (shifts_plain rfl rfl rest), owedBy, owed, Frame.pending_await]
      have hdelay : delay (.operator op) rest = some (j + 1) ↔
          firstAt (endsOperand op) 0 rest = some j := by
        simp [delay]
      by_cases hd : firstAt (endsOperand op) 0 rest = some j <;>
        simp [endsOperand, hdelay, Frame.await, hn, hd]
    | comma =>
      cases ht
      rw [owedBy_succ (shifts_plain rfl rfl rest), owedBy]
      simp [endsOperand, delay, owed, Frame.advance, Frame.opened, Frame.pending, hn]
    | parenRight =>
      cases ht
      rw [owedBy_parenRight_succ]
      simp [endsOperand, delay]

end Turn

/-! ## The program of a script -/

/-- **The programs of all turns** run at every position what falls due there. -/
theorem program_eq {frames left : List Frame} {symbols program : List (Symbol α)}
    (h : Script.ofTokens frames (symbols.map .ok) = ⟨program, .ok left⟩) :
    program = (List.range symbols.length).flatMap fun j =>
      appliedAt symbols j ++ owedBy 0 frames symbols j ++ symbols[j]?.toList.flatMap pushed := by
  induction symbols generalizing frames program with
  | nil =>
    cases h
    rfl
  | cons symbol rest ih =>
    obtain ⟨frame, outer, _, first, next, second, rfl, ⟨⟩, ht, hs, rfl⟩ :=
      Script.ofTokens_cons_eq_ok h
    rw [ih hs, List.length_cons, List.range_succ_eq_map, List.flatMap_cons, List.flatMap_map]
    congr 1
    · simp [appliedAt, program_of_turn ht]
    · congr 1
      funext j
      rw [appliedAt_succ, ← owedBy_of_turn ht rest j, List.getElem?_cons_succ]
      simp only [List.append_assoc]

/-- Behind the opening parenthesis of an expression the program is its postfix form. -/
theorem program_eq_postfixForm {left : List Frame} {symbols program : List (Symbol α)}
    (h : Script.ofTokens [.opened] (symbols.map .ok) = ⟨program, .ok left⟩) :
    program = postfixForm (.parenLeft :: symbols) := by
  rw [program_eq h, postfixForm_cons]
  simp [owedBy, owed, Frame.opened, Frame.pending, delay, pushed]

-- 8 - 2 * 3 + 1
example : postfixForm [.parenLeft, .literal 8, .operator .sub, .literal 2, .operator .mul,
    .literal 3, .operator .add, .literal 1, .parenRight] = [.literal 8, .literal 2, .literal 3,
      .operator .mul, .operator .sub, .literal 1, .operator .add] := by
  decide

/-! ## The first structural failure -/

/-- The groups that symbols leave open, and the function that is the last of them. -/
structure Follows (before : List (Symbol α)) (frames : List Frame) : Prop where
  ne_nil : before ≠ []
  length : frames.length + before.countP Symbol.closes = before.countP Symbol.opens
  function : ∀ top ∈ frames.head?, top.function = before.getLast?.bind Symbol.function?

section Cut

variable {before : List (Symbol α)} {frame : Frame} {outer frames : List Frame}
  {symbol : Symbol α} {program : List (Symbol α)}

theorem Follows.next (h : Follows before (frame :: outer))
    (ht : frame.turn outer symbol = .ok (program, frames)) :
    Follows (before ++ [symbol]) frames := by
  refine ⟨by simp, Frame.length_add_countP_of_turn ht h.length, fun top htop => ?_⟩
  rw [Frame.function_of_turn ht top htop, List.getLast?_concat]
  rfl

theorem Follows.isBalanced_iff (h : Follows before frames) :
    isBalanced before = true ↔ frames = [] := by
  have hlen := h.length
  rw [isBalanced, decide_eq_true_iff, ← List.length_eq_zero_iff]
  omega

theorem Follows.fault_nil (h : Follows before []) (symbol : Symbol α) :
    fault? before symbol = some (.unmatchedParenthesis .right) := by
  have := h.isBalanced_iff.2 rfl
  simp [fault?, h.ne_nil, this]

/-- With a group open, a symbol is a failure exactly when it has no turn. -/
theorem Follows.fault_cons (h : Follows before (frame :: outer)) (symbol : Symbol α) :
    fault? before symbol = match frame.turn outer symbol with
      | .ok _ => none
      | .error e => some e := by
  have hb : isBalanced before = false := by
    rw [← Bool.not_eq_true, h.isBalanced_iff]
    simp
  have hf : frame.function = before.getLast?.bind Symbol.function? := h.function frame rfl
  rw [fault?, hb, ← hf, Bool.and_false, if_neg (by simp)]
  cases ht : frame.turn outer symbol with
  | error e =>
    obtain ⟨f, hf, ho, rfl⟩ := Frame.turn_error ht
    simp [hf, ho]
  | ok next =>
    split
    · rfl
    · next ho =>
      rw [(Frame.turn_ok ht).2.resolve_left ho]
      rfl

/-- **Tokens are cut where their script ends early**, and the outcome behind the cut is the same. -/
theorem cut_eq (h : Follows before frames) (tokens : List (Except EvalError (Symbol α))) :
    ∃ taken fault program left, cut before tokens = (before ++ taken, fault) ∧
      Script.ofTokens frames (taken.map .ok) = ⟨program, .ok left⟩ ∧
      ∀ (A : Arithmetic α) (values : List α),
        ((Script.ofTokens frames tokens).perform A values).bind Script.conclude =
          (Postfix.run A program values).bind (conclude fault) := by
  induction tokens generalizing before frames with
  | nil =>
    refine ⟨[], _, [], frames, by rw [cut, List.append_nil], rfl, fun A values => ?_⟩
    change Script.conclude (frames, values) = conclude _ values
    cases frames with
    | nil =>
      rw [if_pos (h.isBalanced_iff.2 rfl)]
      rcases values with _ | ⟨value, _ | ⟨value', rest⟩⟩ <;> rfl
    | cons frame outer =>
      rw [if_neg fun hb => by cases h.isBalanced_iff.1 hb]
      rfl
  | cons token tokens ih =>
    match token, frames with
    | .error e, frames =>
      refine ⟨[], some e, [], frames, by rw [cut, List.append_nil], rfl, fun A values => ?_⟩
      cases frames <;> rfl
    | .ok symbol, [] =>
      refine ⟨[], some (.unmatchedParenthesis .right), [], [], ?_, rfl, fun A values => rfl⟩
      simp only [cut, h.fault_nil symbol, List.append_nil]
    | .ok symbol, frame :: outer =>
      have hfault := h.fault_cons symbol
      cases ht : frame.turn outer symbol with
      | error e =>
        rw [ht] at hfault
        refine ⟨[], some e, [], frame :: outer, ?_, rfl, fun A values => ?_⟩
        · simp only [cut, hfault, List.append_nil]
        · rw [Script.ofTokens]
          simp only [Script.ofToken, ht]
          rfl
      | ok next =>
        obtain ⟨first, next⟩ := next
        rw [ht] at hfault
        obtain ⟨taken, fault, program, left, hcut, hscript, hsame⟩ := ih (h.next ht)
        refine ⟨symbol :: taken, fault, first ++ program, left, ?_,
          Script.ofTokens_cons_eq_of_turn ht hscript, fun A values => ?_⟩
        · simp only [cut, hfault, hcut, List.append_assoc, List.singleton_append]
        · rw [Script.ofTokens_cons_of_turn ht, Script.perform_andThen, Postfix.run_append]
          cases hr : Postfix.run A first values with
          | error e => rw [Script.perform_error hr]; rfl
          | ok values' =>
            rw [Script.perform_ok hr]
            exact hsame A values'

end Cut

/-- **The outcome of a script is that of the translation**, behind an opening parenthesis. -/
theorem outcome_ofTokens (A : Arithmetic α) (tokens : List (Except EvalError (Symbol α))) :
    (Script.ofTokens [.opened] tokens).outcome A = outcome A (.ok .parenLeft :: tokens) := by
  have start : Follows [(.parenLeft : Symbol α)] [.opened] := by
    refine ⟨by simp, rfl, ?_⟩
    rintro _ ⟨⟩
    rfl
  obtain ⟨taken, fault, program, left, hcut, hscript, hsame⟩ := cut_eq start tokens
  have hcut' : cut [] (.ok .parenLeft :: tokens) = (.parenLeft :: taken, fault) := hcut
  rw [outcome, hcut', ← program_eq_postfixForm hscript]
  exact hsame A []

end Translation

/-- **The evaluator refines the translation to postfix form**, for every expression. -/
theorem SymbolTable.Built.evaluate_eq_outcome {table : SymbolTable} (built : table.Built)
    (A : Arithmetic Float) (expression : String) :
    table.evaluate A expression = (prepare expression).bind fun source =>
      Translation.outcome A (table.tokens source) := by
  rw [SymbolTable.evaluate_eq_run, prepare_eq]
  split
  · rfl
  · rw [Except.bind, Except.bind, SymbolTable.tokens_ofList, built.scan_group,
      Machine.outcome_run, Translation.outcome_ofTokens]

/-- The difference is missing an operand before it turns out that the group is left open. -/
theorem SymbolTable.evaluate_eq_outcome_standard :
    SymbolTable.standard.evaluate .ieee "max(2 - , 3" = .error .stackUnderflow :=
  (SymbolTable.Built.standard.evaluate_eq_outcome .ieee _).trans (by decide +kernel)

end Reckoner
