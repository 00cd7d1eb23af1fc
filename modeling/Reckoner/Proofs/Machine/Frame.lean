import Reckoner.Error

/-!
# Groups of waiting symbols

What waits while an expression is evaluated are its open groups, the innermost on top. A group is a
`Frame`: the commas of its finished arguments, at most one additive operator, at most one
multiplicative operator and at most one function. `Frame.stack` lays groups out as a stack of
symbols. `Frame.turn` says what a symbol does to them: which postfix program is due, and which
groups are left. No number takes part in that.
-/

namespace Reckoner

variable {α : Type}

/-- Whether the operator is `+` or `-`. -/
def Operator.isAdditive : Operator → Bool
  | add | sub => true
  | mul | div => false

theorem Operator.priority_le_of_isAdditive {op : Operator} (h : op.isAdditive = true)
    (waiting : Operator) : op.priority ≤ waiting.priority := by
  cases op <;> cases waiting <;> first | decide | cases h

theorem Operator.priority_le_of_multiplicative {waiting : Operator}
    (h : waiting.isAdditive = false) (op : Operator) : op.priority ≤ waiting.priority := by
  cases waiting <;> cases op <;> first | decide | cases h

namespace Symbol

/-- Whether a symbol opens a group. -/
def opens : Symbol α → Bool
  | parenLeft => true
  | _ => false

theorem opens_eq_false {symbol : Symbol α} (h : symbol ≠ parenLeft) : symbol.opens = false := by
  cases symbol with
  | parenLeft => exact absurd rfl h
  | literal _ | named _ | parenRight | comma | operator _ | function _ => rfl

theorem eq_parenLeft {symbol : Symbol α} (h : symbol.opens = true) : symbol = parenLeft := by
  cases symbol with
  | parenLeft => rfl
  | literal _ | named _ | parenRight | comma | operator _ | function _ => cases h

/-- Whether a symbol closes a group. -/
def closes : Symbol α → Bool
  | parenRight => true
  | _ => false

/-- The function that a symbol is. -/
def function? : Symbol α → Option Builtin
  | function f => some f
  | _ => none

theorem eq_function {symbol : Symbol α} {f : Builtin} (h : symbol.function? = some f) :
    symbol = function f := by
  cases symbol with
  | function g =>
    cases h
    rfl
  | literal _ | named _ | parenLeft | parenRight | comma | operator _ => cases h

end Symbol

theorem countP_cons_toNat (p : Symbol α → Bool) (symbol : Symbol α) (symbols : List (Symbol α)) :
    (symbol :: symbols).countP p = symbols.countP p + (p symbol).toNat := by
  rw [List.countP_cons]
  cases p symbol <;> rfl

/-- What waits in an open group. -/
@[ext] structure Frame where
  /-- How many of its arguments are finished. -/
  commas : Nat
  additive : Option Operator
  multiplicative : Option Operator
  /-- A function whose argument group has not been opened. -/
  function : Option Builtin
  isAdditive_additive : ∀ op ∈ additive, op.isAdditive = true
  isAdditive_multiplicative : ∀ op ∈ multiplicative, op.isAdditive = false

namespace Frame

/-- The symbols of a group from the bottom to the top. -/
def symbols (frame : Frame) : List (Symbol α) :=
  .parenLeft :: List.replicate frame.commas .comma ++ frame.additive.toList.map .operator ++
    frame.multiplicative.toList.map .operator ++ frame.function.toList.map .function

/-- The operators that wait in a group, top first. -/
def pending (frame : Frame) : List Operator :=
  frame.multiplicative.toList ++ frame.additive.toList

/-- Groups as a stack of waiting symbols; both have the top first. -/
def stack (frames : List Frame) : List (Symbol α) :=
  frames.flatMap fun frame => frame.symbols.reverse

/-! ## What symbols do to groups -/

/-- A group that was just opened. -/
def opened : Frame := ⟨0, none, none, none, by simp, by simp⟩

/-- The operators that are applied before `op` can wait. -/
def due (frame : Frame) (op : Operator) : List Operator :=
  if op.isAdditive then frame.pending else frame.multiplicative.toList

/-- The group in which `op` waits, behind what is due. -/
def await (frame : Frame) (op : Operator) : Frame where
  commas := frame.commas
  additive := if op.isAdditive then some op else frame.additive
  multiplicative := if op.isAdditive then none else some op
  function := frame.function
  isAdditive_additive := by
    split
    · simpa
    · exact frame.isAdditive_additive
  isAdditive_multiplicative := by split <;> simp_all

/-- The group with one more argument finished. -/
def advance (frame : Frame) : Frame :=
  { opened with commas := frame.commas + 1, function := frame.function }

/-- The group in which a function waits for its arguments. -/
def call (frame : Frame) (f : Builtin) : Frame :=
  { frame with function := some f }

/-- The group whose function has been applied, if there was one. -/
def answered (frame : Frame) : Frame :=
  { frame with function := none }

/-- The function that waits for the group above. -/
def callee : List Frame → List (Symbol α)
  | frame :: _ => frame.function.toList.map .function
  | [] => []

/-- What a symbol does to the innermost group `frame` and those around it: the program that is run
and the groups that are left. -/
def take (frame : Frame) (outer : List Frame) : Symbol α → List (Symbol α) × List Frame
  | .parenLeft => ([], opened :: frame :: outer)
  | .parenRight => (frame.pending.map .operator ++ callee outer, outer.modifyHead answered)
  | .comma => (frame.pending.map .operator, frame.advance :: outer)
  | .operator op => ((frame.due op).map .operator, frame.await op :: outer)
  | .function f => ([], frame.call f :: outer)
  | symbol => ([symbol], frame :: outer)

/-- The turn of a symbol. Behind a function only its arguments can come. -/
def turn (frame : Frame) (outer : List Frame) (symbol : Symbol α) :
    Except EvalError (List (Symbol α) × List Frame) :=
  match if symbol.opens then none else frame.function with
  | some f => .error (.danglingFunction f)
  | none => .ok (frame.take outer symbol)

theorem answered_eq_self {frame : Frame} (h : frame.function = none) : frame.answered = frame := by
  cases frame
  cases h
  rfl

section Turn

variable {frame : Frame} {outer frames : List Frame} {symbol : Symbol α}
  {program : List (Symbol α)}

theorem turn_dangling {f : Builtin} (h : frame.function = some f) (hs : symbol.opens = false) :
    frame.turn outer symbol = .error (.danglingFunction f) := by
  simp [turn, h, hs]

theorem turn_eq_take (h : symbol.opens = true ∨ frame.function = none) :
    frame.turn outer symbol = .ok (frame.take outer symbol) := by
  rcases h with h | h <;> simp [turn, h]

theorem turn_error {e : EvalError} (h : frame.turn outer symbol = .error e) :
    ∃ f, frame.function = some f ∧ symbol.opens = false ∧ e = .danglingFunction f := by
  cases ho : symbol.opens with
  | true =>
    rw [turn_eq_take (.inl ho)] at h
    cases h
  | false =>
    cases hf : frame.function with
    | none =>
      rw [turn_eq_take (.inr hf)] at h
      cases h
    | some f =>
      rw [turn_dangling hf ho] at h
      cases h
      exact ⟨f, rfl, rfl, rfl⟩

theorem turn_ok (h : frame.turn outer symbol = .ok (program, frames)) :
    frame.take outer symbol = (program, frames) ∧
      (symbol.opens = true ∨ frame.function = none) := by
  cases ho : symbol.opens with
  | true =>
    rw [turn_eq_take (.inl ho)] at h
    exact ⟨Except.ok.inj h, .inl rfl⟩
  | false =>
    cases hf : frame.function with
    | none =>
      rw [turn_eq_take (.inr hf)] at h
      exact ⟨Except.ok.inj h, .inr rfl⟩
    | some f =>
      rw [turn_dangling hf ho] at h
      cases h

theorem turn_parenLeft : frame.turn outer (.parenLeft : Symbol α) =
    .ok ([], opened :: frame :: outer) :=
  turn_eq_take (.inl rfl)

theorem turn_literal (h : frame.function = none) (value : α) :
    frame.turn outer (.literal value) = .ok ([.literal value], frame :: outer) :=
  turn_eq_take (.inr h)

theorem turn_named (h : frame.function = none) (value : α) :
    frame.turn outer (.named value) = .ok ([.named value], frame :: outer) :=
  turn_eq_take (.inr h)

theorem turn_function (h : frame.function = none) (f : Builtin) :
    frame.turn outer (.function f : Symbol α) = .ok ([], frame.call f :: outer) :=
  turn_eq_take (.inr h)

theorem turn_operator (h : frame.function = none) (op : Operator) :
    frame.turn outer (.operator op : Symbol α) =
      .ok ((frame.due op).map .operator, frame.await op :: outer) :=
  turn_eq_take (.inr h)

theorem turn_comma (h : frame.function = none) : frame.turn outer (.comma : Symbol α) =
    .ok (frame.pending.map .operator, frame.advance :: outer) :=
  turn_eq_take (.inr h)

theorem turn_parenRight (h : frame.function = none) : frame.turn outer (.parenRight : Symbol α) =
    .ok (frame.pending.map .operator ++ callee outer, outer.modifyHead answered) :=
  turn_eq_take (.inr h)

/-- A function waits on top only after its own turn. -/
theorem function_of_turn (h : frame.turn outer symbol = .ok (program, frames)) :
    ∀ top ∈ frames.head?, top.function = symbol.function? := by
  obtain ⟨ht, hf⟩ := turn_ok h
  intro top htop
  cases symbol with
  | parenLeft | function f =>
    cases ht
    cases htop
    rfl
  | literal _ | named _ | operator _ | comma =>
    cases ht
    cases htop
    exact hf.resolve_left (by simp [Symbol.opens])
  | parenRight =>
    cases ht
    cases outer with
    | nil => cases htop
    | cons frame outer =>
      cases htop
      rfl

theorem length_of_turn (h : frame.turn outer symbol = .ok (program, frames)) :
    frames.length + symbol.closes.toNat = outer.length + 1 + symbol.opens.toNat := by
  obtain ⟨ht, -⟩ := turn_ok h
  cases symbol with
  | parenRight =>
    cases ht
    simp [Symbol.closes, Symbol.opens]
  | literal _ | named _ | parenLeft | operator _ | comma | function _ =>
    cases ht
    rfl

/-- Only a closing parenthesis can leave no group open. -/
theorem turn_ne_nil (h : frame.turn outer symbol = .ok (program, [])) : symbol = .parenRight := by
  obtain ⟨ht, -⟩ := turn_ok h
  cases symbol with
  | parenRight => rfl
  | literal _ | named _ | parenLeft | operator _ | comma | function _ => cases ht

/-- The groups stay as many as the parentheses that are open. -/
theorem length_add_countP_of_turn {before : List (Symbol α)}
    (h : frame.turn outer symbol = .ok (program, frames))
    (hb : outer.length + 1 + before.countP Symbol.closes = before.countP Symbol.opens) :
    frames.length + (before ++ [symbol]).countP Symbol.closes =
      (before ++ [symbol]).countP Symbol.opens := by
  have hlen := length_of_turn h
  rw [List.countP_append, List.countP_append, countP_cons_toNat, countP_cons_toNat,
    List.countP_nil, List.countP_nil]
  omega

end Turn

theorem modifyHead_answered {frames : List Frame}
    (h : ∀ frame ∈ frames.head?, frame.function = none) : frames.modifyHead answered = frames := by
  cases frames with
  | nil => rfl
  | cons frame outer => exact congrArg (· :: outer) (answered_eq_self (h frame rfl))

theorem callee_eq_nil {frames : List Frame}
    (h : ∀ frame ∈ frames.head?, frame.function = none) :
    (callee frames : List (Symbol α)) = [] := by
  cases frames with
  | nil => rfl
  | cons frame outer => simp [callee, h frame rfl]

/-- A turn does the same above further groups, if it leaves one of its own open or no function waits
on top of them. -/
theorem turn_above {frame : Frame} {outer frames : List Frame} {symbol : Symbol α}
    {program : List (Symbol α)} (h : frame.turn outer symbol = .ok (program, frames))
    {below : List Frame} (hb : frames = [] → ∀ frame ∈ below.head?, frame.function = none) :
    frame.turn (outer ++ below) symbol = .ok (program, frames ++ below) := by
  obtain ⟨ht, hf⟩ := turn_ok h
  rw [turn_eq_take hf]
  cases symbol with
  | literal _ | named _ | parenLeft | comma | operator _ | function _ =>
    cases ht
    rfl
  | parenRight =>
    cases ht
    cases outer with
    | nil =>
      have hb' := hb rfl
      rw [List.nil_append, take, callee_eq_nil hb', modifyHead_answered hb']
      rfl
    | cons frame outer => rfl

/-! ## The layout of groups -/

@[simp] theorem stack_nil : stack [] = ([] : List (Symbol α)) := rfl

theorem stack_cons (frame : Frame) (outer : List Frame) :
    (stack (frame :: outer) : List (Symbol α)) =
      frame.function.toList.map .function ++ (frame.pending.map .operator ++
        (List.replicate frame.commas .comma ++ .parenLeft :: stack outer)) := by
  have h : ∀ o : Option Operator, o.toList.reverse = o.toList := fun o => by cases o <;> rfl
  have h' : ∀ o : Option Builtin, o.toList.reverse = o.toList := fun o => by cases o <;> rfl
  simp [stack, symbols, pending, h, h', ← List.map_reverse]

theorem stack_call {frame : Frame} (h : frame.function = none) (f : Builtin)
    (outer : List Frame) :
    (stack (frame.call f :: outer) : List (Symbol α)) = .function f :: stack (frame :: outer) := by
  simp [stack_cons, h, call, pending]

theorem stack_advance {frame : Frame} (h : frame.function = none) (outer : List Frame) :
    (stack (frame.advance :: outer) : List (Symbol α)) =
      .comma :: (List.replicate frame.commas .comma ++ .parenLeft :: stack outer) := by
  simp [stack_cons, h, advance, pending, opened, List.replicate_succ]

theorem stack_cons_of_function {frame : Frame} {f : Builtin} (h : frame.function = some f)
    (outer : List Frame) :
    (stack (frame :: outer) : List (Symbol α)) =
      .function f :: stack (frame.answered :: outer) := by
  simp [stack_cons, h, answered, pending]

theorem stack_ne_function {frame : Frame} (h : frame.function = none) (outer : List Frame)
    (f : Builtin) (waiting : List (Symbol α)) :
    stack (frame :: outer) ≠ .function f :: waiting := by
  rw [stack_cons, h]
  intro heq
  cases hp : frame.pending with
  | cons op ops => simp [hp] at heq
  | nil => cases hc : frame.commas <;> simp [hp, hc, List.replicate_succ] at heq

/-- What is left of a group in which `op` settles what is due. -/
def remaining (frame : Frame) (op : Operator) : List (Symbol α) :=
  (if op.isAdditive then [] else frame.additive.toList).map .operator ++
    List.replicate frame.commas .comma

theorem stack_eq_due {frame : Frame} (h : frame.function = none) (outer : List Frame)
    (op : Operator) : (stack (frame :: outer) : List (Symbol α)) =
      (frame.due op).map .operator ++ (frame.remaining op ++ .parenLeft :: stack outer) := by
  rw [stack_cons, h]
  cases hop : op.isAdditive <;> simp [due, remaining, hop, pending]

theorem stack_await {frame : Frame} (h : frame.function = none) (outer : List Frame)
    (op : Operator) : (stack (frame.await op :: outer) : List (Symbol α)) =
      .operator op :: (frame.remaining op ++ .parenLeft :: stack outer) := by
  rw [stack_cons]
  cases hop : op.isAdditive <;> simp [await, remaining, hop, h, pending]

theorem priority_le_multiplicative {frame : Frame} {op waiting : Operator}
    (h : waiting ∈ frame.multiplicative) : op.priority ≤ waiting.priority :=
  Operator.priority_le_of_multiplicative (frame.isAdditive_multiplicative waiting h) op

theorem priority_le_additive {frame : Frame} {op waiting : Operator}
    (h : waiting ∈ frame.additive) : op.priority ≤ waiting.priority ↔ op.isAdditive = true := by
  have := frame.isAdditive_additive waiting h
  cases op <;> cases waiting <;> simp_all [Operator.isAdditive, Operator.priority]

/-- What is due is what binds at least as tightly as `op`. -/
theorem filter_pending (frame : Frame) (op : Operator) :
    (frame.pending.filter fun waiting => op.priority ≤ waiting.priority) = frame.due op := by
  have hmul : (frame.multiplicative.toList.filter fun waiting => op.priority ≤ waiting.priority) =
      frame.multiplicative.toList := by
    refine List.filter_eq_self.2 fun waiting hmem => ?_
    simpa using priority_le_multiplicative (by simpa using hmem)
  rw [pending, List.filter_append, hmul, due, pending]
  split
  · next hop =>
    congr 1
    refine List.filter_eq_self.2 fun waiting hmem => ?_
    simpa [priority_le_additive (by simpa using hmem)] using hop
  · next hop =>
    rw [List.filter_eq_nil_iff.2, List.append_nil]
    intro waiting hmem
    simpa [priority_le_additive (by simpa using hmem)] using hop

/-- Behind `op` waits what binds less tightly. -/
theorem pending_await (frame : Frame) (op : Operator) :
    (frame.await op).pending =
      op :: frame.pending.filter fun waiting => !decide (op.priority ≤ waiting.priority) := by
  have hmul : (frame.multiplicative.toList.filter fun waiting =>
      !decide (op.priority ≤ waiting.priority)) = [] := by
    refine List.filter_eq_nil_iff.2 fun waiting hmem => ?_
    simpa using priority_le_multiplicative (by simpa using hmem)
  rw [pending, pending, List.filter_append, hmul, List.nil_append]
  change (if op.isAdditive then none else some op).toList ++
    (if op.isAdditive then some op else frame.additive).toList = _
  cases hop : op.isAdditive with
  | true =>
    rw [List.filter_eq_nil_iff.2]
    · rfl
    · intro waiting hmem
      simpa [priority_le_additive (by simpa using hmem)] using hop
  | false =>
    rw [List.filter_eq_self.2]
    · rfl
    · intro waiting hmem
      simpa [priority_le_additive (by simpa using hmem)] using hop

theorem priority_of_mem_due {frame : Frame} {op due : Operator} (h : due ∈ frame.due op) :
    op.priority ≤ due.priority := by
  rw [← filter_pending] at h
  simpa using (List.mem_filter.1 h).2

theorem priority_of_remaining {frame : Frame} {op top : Operator} {rest waiting : List (Symbol α)}
    (h : frame.remaining op ++ .parenLeft :: rest = .operator top :: waiting) :
    ¬ op.priority ≤ top.priority := by
  unfold remaining at h
  split at h
  · cases hc : frame.commas <;> simp [hc, List.replicate_succ] at h
  · next hop =>
    cases ha : frame.additive with
    | none => cases hc : frame.commas <;> simp [ha, hc, List.replicate_succ] at h
    | some op' =>
      simp only [ha, Option.toList_some, List.map_cons, List.cons_append, List.cons.injEq,
        Symbol.operator.injEq] at h
      obtain ⟨rfl, -⟩ := h
      rwa [priority_le_additive ha]

theorem reverse_stack (frames : List Frame) :
    (stack frames : List (Symbol α)).reverse = frames.reverse.flatMap symbols := by
  rw [stack, List.reverse_flatMap]
  congr 1
  funext frame
  exact List.reverse_reverse _

theorem stack_eq_nil {frames : List Frame} :
    (stack frames : List (Symbol α)) = [] ↔ frames = [] := by
  cases frames with
  | nil => simp
  | cons frame outer => simp [stack_cons]

end Frame

end Reckoner
