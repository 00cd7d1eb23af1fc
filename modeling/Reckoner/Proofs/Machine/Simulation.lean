import Reckoner.Machine
import Reckoner.Proofs.Machine.Frame
import Reckoner.Proofs.Postfix

/-!
# The machine works on groups

A machine whose waiting symbols are laid out from groups does to them what `Frame.turn` does to the
groups, and runs the program of that turn on its values (`effect_dispatch`). The proof goes through
the loops of the machine one by one: settling applies the operators on top that bind tightly enough
(`effect_settleFrom`), and draining those of the group with its commas (`effect_drainFrom`). All of
it is said of the two stacks alone (`Machine.effect`); the record of steps is left aside.
-/

namespace Reckoner

variable {α : Type}

namespace Machine

variable {A : Arithmetic α} {β : Type}

/-! ## The machine seen through its stacks -/

/-- The waiting symbols and the values that an action leaves, or its error. -/
def effect : EStateM.Result EvalError (Machine α) β →
    Except EvalError (List (Symbol α) × List α)
  | .ok _ m => .ok (m.operators, m.values)
  | .error e _ => .error e

/-- Of an action that works on the stacks alone, the stacks before it are all that matters. -/
theorem effect_bind {x : Action α Unit} {f : Unit → Action α β} {m : Machine α}
    {k : List (Symbol α) × List α → Except EvalError (List (Symbol α) × List α)}
    (h : ∀ m', effect (x m) = .ok (m'.operators, m'.values) →
      effect (f () m') = k (m'.operators, m'.values)) :
    effect ((x >>= f) m) = (effect (x m)).bind k := by
  change effect (EStateM.bind x f m) = _
  unfold EStateM.bind
  cases hx : x m with
  | ok u m' => exact h m' (by rw [hx]; rfl)
  | error e m' => rfl

theorem effect_apply (symbol : Symbol α) (m : Machine α) :
    effect (apply A symbol m) =
      (symbol.act A m.values).map fun values => (m.operators, values) := by
  unfold apply Symbol.act
  cases symbol.eval A m.values with
  | ok value values => cases value <;> rfl
  | error e values => rfl

/-- Settling applies the operators on top that bind tightly enough, down to the first symbol that
does not. -/
theorem effect_settleFrom {priority : Nat} {ops : List Operator} {rest : List (Symbol α)}
    (hops : ∀ op ∈ ops, priority ≤ op.priority)
    (hrest : ∀ op waiting, rest = .operator op :: waiting → ¬ priority ≤ op.priority)
    {m : Machine α} (hm : m.operators = ops.map .operator ++ rest) :
    effect (settleFrom A priority m.operators m) =
      (Postfix.run A (ops.map .operator) m.values).map fun values => (rest, values) := by
  rw [hm]
  induction ops generalizing m with
  | nil =>
    have : settleFrom A priority rest m = .ok () m := by
      unfold settleFrom
      split
      · next op waiting => rw [if_neg (hrest op waiting rfl)]; rfl
      · rfl
    simp only [List.map_nil, List.nil_append, this]
    simp only [List.map_nil, List.nil_append] at hm
    rw [← hm]
    rfl
  | cons op ops ih =>
    simp only [List.map_cons, List.cons_append, Postfix.run_cons]
    unfold settleFrom
    rw [if_pos (hops op List.mem_cons_self)]
    rw [effect_bind (k := fun (_, values) =>
      (Postfix.run A (ops.map .operator) values).map fun values => (rest, values))]
    · rw [effect_apply]
      cases (Symbol.operator op).act A m.values <;> rfl
    · intro m' _
      exact ih (m := { m' with operators := ops.map .operator ++ rest })
        (fun op' h => hops op' (List.mem_cons_of_mem _ h)) rfl

theorem effect_drainFrom_commas (commas : Nat) (rest : List (Symbol α)) (m : Machine α) :
    effect (drainFrom A (List.replicate commas .comma ++ .parenLeft :: rest) m) =
      .ok (rest, m.values) := by
  induction commas generalizing m with
  | zero => rfl
  | succ n ih =>
    rw [List.replicate_succ, List.cons_append]
    exact ih _

/-- Draining applies the operators of a group and drops its commas and its parenthesis. -/
theorem effect_drainFrom (ops : List Operator) (commas : Nat) (rest : List (Symbol α))
    (m : Machine α) :
    effect (drainFrom A
      (ops.map .operator ++ (List.replicate commas .comma ++ .parenLeft :: rest)) m) =
      (Postfix.run A (ops.map .operator) m.values).map fun values => (rest, values) := by
  induction ops generalizing m with
  | nil => exact effect_drainFrom_commas commas rest m
  | cons op ops ih =>
    simp only [List.map_cons, List.cons_append, Postfix.run_cons]
    have step : ∀ waiting, drainFrom A (.operator op :: waiting) m =
        (apply A (.operator op) >>= fun _ => drainFrom A waiting)
          { m with operators := waiting } := fun _ => rfl
    rw [step, effect_bind (k := fun (_, values) =>
      (Postfix.run A (ops.map .operator) values).map fun values => (rest, values))]
    · rw [effect_apply]
      cases (Symbol.operator op).act A m.values <;> rfl
    · intro m' _
      exact ih m'

theorem applyFunction_of_function {m : Machine α} {f : Builtin} {waiting : List (Symbol α)}
    (h : m.operators = .function f :: waiting) :
    applyFunction A m = (apply A (.function f) >>= fun _ => setOperators waiting) m := by
  obtain ⟨operators, values, steps⟩ := m
  cases h
  rfl

theorem applyFunction_of_ne {m : Machine α}
    (h : ∀ f waiting, m.operators ≠ .function f :: waiting) :
    applyFunction A m = .ok () m := by
  obtain ⟨operators, values, steps⟩ := m
  cases operators with
  | nil => rfl
  | cons symbol waiting =>
    cases symbol with
    | function f => exact absurd rfl (h f waiting)
    | literal _ | named _ | parenLeft | parenRight | comma | operator _ => rfl

open Reckoner.Frame in
/-- A function that waits for the group just closed is applied. -/
theorem effect_applyFunction {outer : List Frame} {m : Machine α}
    (hm : m.operators = stack outer) :
    effect (applyFunction A m) = (Postfix.run A (callee outer) m.values).map fun values =>
      (stack (outer.modifyHead answered), values) := by
  cases outer with
  | nil =>
    rw [applyFunction_of_ne (by simp [hm])]
    simp [effect, callee, hm, Except.map]
  | cons frame outer =>
    cases hf : frame.function with
    | none =>
      rw [applyFunction_of_ne (hm ▸ stack_ne_function hf outer)]
      simp [effect, callee, hm, hf, answered_eq_self hf, Except.map]
    | some f =>
      rw [applyFunction_of_function (hm.trans (stack_cons_of_function hf outer)),
        effect_bind (k := fun left => .ok (stack (frame.answered :: outer), left.2))]
      · rw [effect_apply]
        simp only [callee, hf, List.modifyHead, Option.toList_some, List.map_cons, List.map_nil,
          Postfix.run_cons]
        cases (Symbol.function f).act A m.values <;> rfl
      · intro m' _
        rfl

/-! ## One symbol on the machine -/

theorem requireGroup_eq (symbol : Symbol α) (m : Machine α) :
    requireGroup symbol m = match m.operators, symbol with
      | .function _ :: _, .parenLeft => .ok () m
      | .function f :: _, _ => .error (.danglingFunction f) m
      | _, _ => .ok () m := by
  rcases m with ⟨_ | ⟨_ | _ | _ | _ | _ | _ | _, _⟩, _, _⟩ <;> cases symbol <;> rfl

section Dispatch

open Reckoner.Frame

variable {frame : Frame} {outer : List Frame} {m : Machine α}
  (hm : m.operators = stack (frame :: outer))

include hm

theorem requireGroup_ok {symbol : Symbol α} (h : frame.function = none ∨ symbol = .parenLeft) :
    requireGroup symbol m = .ok () m := by
  rw [requireGroup_eq]
  split
  · rfl
  · next f waiting heq hs =>
    rcases h with h | h
    · exact absurd (hm.symm.trans heq) (stack_ne_function h outer f waiting)
    · exact absurd h hs
  · rfl

theorem requireGroup_error {symbol : Symbol α} {f : Builtin} (h : frame.function = some f)
    (hs : symbol ≠ .parenLeft) : requireGroup symbol m = .error (.danglingFunction f) m := by
  rw [requireGroup_eq, hm, stack_cons_of_function h]
  cases symbol <;> first | exact absurd rfl hs | rfl

theorem effect_settle (h : frame.function = none) (op : Operator) :
    effect (settle A op.priority m) =
      (Postfix.run A ((frame.due op).map .operator) m.values).map fun values =>
        (frame.remaining op ++ .parenLeft :: stack outer, values) :=
  effect_settleFrom (fun _ => priority_of_mem_due) (fun _ _ => priority_of_remaining)
    (hm.trans (stack_eq_due h outer op))

theorem effect_settle_all (h : frame.function = none) :
    effect (settle A 0 m) =
      (Postfix.run A (frame.pending.map .operator) m.values).map fun values =>
        (List.replicate frame.commas .comma ++ .parenLeft :: stack outer, values) := by
  rw [stack_cons, h] at hm
  refine effect_settleFrom (fun _ _ => Nat.zero_le _) (fun op waiting heq => ?_) hm
  cases hc : frame.commas <;> simp [hc, List.replicate_succ] at heq

theorem effect_closeGroup (h : frame.function = none) :
    effect (closeGroup A m) =
      (Postfix.run A (frame.pending.map .operator ++ callee outer) m.values).map fun values =>
        (stack (outer.modifyHead answered), values) := by
  have drained := effect_drainFrom (A := A) frame.pending frame.commas (stack outer) m
  rw [stack_cons, h] at hm
  change effect ((drainFrom A m.operators >>= fun _ => applyFunction A) m) = _
  rw [hm, effect_bind (k := fun (_, values) => (Postfix.run A (callee outer) values).map
    fun values => (stack (outer.modifyHead answered), values))]
  · simp only [Option.toList_none, List.map_nil, List.nil_append, drained, Postfix.run_append]
    cases Postfix.run A (frame.pending.map .operator) m.values <;> rfl
  · intro m' hm'
    simp only [Option.toList_none, List.map_nil, List.nil_append, drained] at hm'
    refine effect_applyFunction ?_
    cases hr : Postfix.run A (frame.pending.map .operator) m.values with
    | error e => rw [hr] at hm'; cases hm'
    | ok values =>
      rw [hr] at hm'
      simp only [Except.map, Except.ok.injEq, Prod.mk.injEq] at hm'
      exact hm'.1.symm

theorem requireGroup_bind {symbol : Symbol α} (h : frame.function = none ∨ symbol = .parenLeft)
    (x : Action α Unit) : (requireGroup symbol >>= fun _ => x) m = x m := by
  change EStateM.bind _ _ _ = _
  rw [EStateM.bind, requireGroup_ok hm h]

theorem effect_dispatch_dangling {f : Builtin} (h : frame.function = some f) {symbol : Symbol α}
    (hs : symbol ≠ .parenLeft) :
    effect (dispatch A symbol m) = .error (.danglingFunction f) := by
  have herr := requireGroup_error (m := { m with steps := .dispatched symbol :: m.steps }) hm h hs
  unfold dispatch
  -- the step is on record before the failure
  change effect (EStateM.bind (requireGroup symbol) _
    { m with steps := .dispatched symbol :: m.steps }) = _
  rw [EStateM.bind, herr]
  rfl

omit hm in
/-- Waiting symbols that `settle` leaves, with one more on top. -/
theorem effect_settle_push {priority : Nat} {program rest : List (Symbol α)} {symbol : Symbol α}
    (h : effect (settle A priority m) =
      (Postfix.run A program m.values).map fun values => (rest, values)) :
    effect ((settle A priority >>= fun _ => pushOperator symbol) m) =
      (Postfix.run A program m.values).map fun values => (symbol :: rest, values) := by
  rw [effect_bind (k := fun (waiting, values) => .ok (symbol :: waiting, values)) fun _ _ => rfl, h]
  cases Postfix.run A program m.values <;> rfl

/-- **A symbol does to a machine what it does to its groups**, and has their program run on the
values. -/
theorem effect_dispatch (symbol : Symbol α) :
    effect (dispatch A symbol m) = (frame.turn outer symbol).bind fun (program, frames) =>
      (Postfix.run A program m.values).map fun values => (stack frames, values) := by
  let noted : Machine α := { m with steps := .dispatched symbol :: m.steps }
  have hn : noted.operators = stack (frame :: outer) := hm
  by_cases hs : symbol = .parenLeft
  · subst hs
    change effect ((requireGroup .parenLeft >>= fun _ => pushOperator .parenLeft) noted) = _
    rw [requireGroup_bind hn (.inr rfl), turn_parenLeft]
    change Except.ok (_ :: noted.operators, m.values) = _
    rw [hn]
    rfl
  cases hf : frame.function with
  | some f =>
    rw [effect_dispatch_dangling hm hf hs, turn_dangling hf (Symbol.opens_eq_false hs)]
    rfl
  | none =>
    cases symbol with
    | literal value =>
      change effect ((requireGroup _ >>= fun _ => pushValue value) noted) = _
      rw [requireGroup_bind hn (.inl hf), turn_literal hf]
      exact congrArg (fun waiting => Except.ok (waiting, value :: m.values)) hm
    | named value =>
      change effect ((requireGroup _ >>= fun _ => pushValue value) noted) = _
      rw [requireGroup_bind hn (.inl hf), turn_named hf]
      exact congrArg (fun waiting => Except.ok (waiting, value :: m.values)) hm
    | parenLeft => exact absurd rfl hs
    | parenRight =>
      change effect ((requireGroup _ >>= fun _ => closeGroup A) noted) = _
      rw [requireGroup_bind hn (.inl hf), turn_parenRight hf]
      exact effect_closeGroup hn hf
    | comma =>
      change effect ((requireGroup _ >>= fun _ =>
        settle A 0 >>= fun _ => pushOperator .comma) noted) = _
      rw [requireGroup_bind hn (.inl hf), turn_comma hf,
        effect_settle_push (effect_settle_all hn hf), ← stack_advance hf]
      rfl
    | operator op =>
      change effect ((requireGroup _ >>= fun _ =>
        settle A op.priority >>= fun _ => pushOperator (.operator op)) noted) = _
      rw [requireGroup_bind hn (.inl hf), turn_operator hf,
        effect_settle_push (effect_settle hn hf op), ← stack_await hf]
      rfl
    | function f =>
      change effect ((requireGroup _ >>= fun _ => pushOperator (.function f)) noted) = _
      rw [requireGroup_bind hn (.inl hf), turn_function hf]
      change Except.ok (_ :: noted.operators, m.values) = _
      rw [hn, ← stack_call hf]
      rfl

/-- A symbol that succeeds leaves the groups and the values of its turn. -/
theorem dispatch_ok {symbol : Symbol α} {m' : Machine α} (h : dispatch A symbol m = .ok () m') :
    ∃ program frames, frame.turn outer symbol = .ok (program, frames) ∧
      m'.operators = stack frames ∧ Postfix.run A program m.values = .ok m'.values := by
  have turned := effect_dispatch (A := A) hm symbol
  rw [h] at turned
  cases ht : frame.turn outer symbol with
  | error e =>
    rw [ht] at turned
    cases turned
  | ok next =>
    obtain ⟨program, frames⟩ := next
    rw [ht] at turned
    simp only [Except.bind] at turned
    cases hr : Postfix.run A program m.values with
    | error e =>
      rw [hr] at turned
      cases turned
    | ok values =>
      rw [hr] at turned
      simp only [effect, Except.map, Except.ok.injEq, Prod.mk.injEq] at turned
      exact ⟨program, frames, rfl, turned.1, by rw [turned.2, hr]⟩

/-- A symbol fails because it has no turn or because the program of its turn fails. -/
theorem dispatch_error {symbol : Symbol α} {m' : Machine α} {e : EvalError}
    (h : dispatch A symbol m = .error e m') :
    frame.turn outer symbol = .error e ∨ e = .stackUnderflow := by
  have turned := effect_dispatch (A := A) hm symbol
  rw [h] at turned
  cases ht : frame.turn outer symbol with
  | error e' =>
    rw [ht] at turned
    cases turned
    exact .inl rfl
  | ok next =>
    rw [ht] at turned
    simp only [Except.bind] at turned
    cases hr : Postfix.run A next.1 m.values with
    | error e' =>
      rw [hr] at turned
      cases turned
      exact .inr (Postfix.run_error hr)
    | ok values =>
      rw [hr] at turned
      cases turned

end Dispatch

open Reckoner.Frame in
/-- An opening parenthesis opens a group, also if none is open. -/
theorem effect_dispatch_parenLeft {frames : List Frame} {m : Machine α}
    (hm : m.operators = stack frames) :
    effect (dispatch A .parenLeft m) = .ok (stack (opened :: frames), m.values) := by
  cases frames with
  | nil =>
    rcases m with ⟨_, values, steps⟩
    cases hm
    rfl
  | cons frame outer => exact effect_dispatch hm .parenLeft

end Machine

end Reckoner
