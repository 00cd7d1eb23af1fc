import Reckoner.Ieee
import Reckoner.Proofs.Evaluation

/-!
# The waiting symbols of a run

Between two tokens of a run the waiting symbols are laid out from groups, one for every parenthesis
that is still open, and the run regards its last group as closed exactly when none of them is left
(`Reached.holds`). So two of the failures that the machine provides for cannot occur: a closing
parenthesis always finds the one that it closes, and never a function inside its group
(`closeGroup_error`). What stands behind the last group is found out before a machine turns to it,
and nowhere else (`Reached.exists_closed`).
-/

namespace Reckoner

/-- Whether a symbol can wait on the stack. -/
def Symbol.waits {α : Type} : Symbol α → Bool
  | parenLeft | comma | operator _ | function _ => true
  | literal _ | named _ | parenRight => false

namespace Machine

variable {α β γ : Type} {A : Arithmetic α}

/-! ## What a failure leaves -/

/-- The machine that an action leaves, also when it fails. -/
def left : EStateM.Result EvalError (Machine α) β → Machine α
  | .ok _ m => m
  | .error _ m => m

theorem suffix_bind {x : Action α β} {f : β → Action α γ} {m : Machine α}
    (hx : (left (x m)).operators <:+ m.operators)
    (hf : ∀ a m', x m = .ok a m' → (left (f a m')).operators <:+ m'.operators) :
    (left ((x >>= f) m)).operators <:+ m.operators := by
  change (left (EStateM.bind x f m)).operators <:+ _
  unfold EStateM.bind
  cases h : x m with
  | ok a m' =>
    rw [h] at hx
    exact (hf a m' h).trans hx
  | error e m' =>
    rw [h] at hx
    exact hx

theorem error_bind {x : Action α β} {f : β → Action α γ} {m m' : Machine α} {e : EvalError}
    (h : (x >>= f) m = .error e m') :
    x m = .error e m' ∨ ∃ a m₁, x m = .ok a m₁ ∧ f a m₁ = .error e m' := by
  change EStateM.bind x f m = _ at h
  unfold EStateM.bind at h
  cases hx : x m with
  | ok a m₁ =>
    rw [hx] at h
    exact .inr ⟨a, m₁, rfl, h⟩
  | error e' m₁ =>
    rw [hx] at h
    cases h
    exact .inl rfl

theorem operators_apply (symbol : Symbol α) (m : Machine α) :
    (left (apply A symbol m)).operators = m.operators := by
  unfold apply
  cases symbol.eval A m.values with
  | ok value values => cases value <;> rfl
  | error e values => rfl

theorem suffix_apply (symbol : Symbol α) (m : Machine α) :
    (left (apply A symbol m)).operators <:+ m.operators := by
  simp only [operators_apply, List.suffix_rfl]

theorem suffix_settleFrom {priority : Nat} {waiting : List (Symbol α)} {m : Machine α}
    (hm : m.operators = waiting) :
    (left (settleFrom A priority waiting m)).operators <:+ m.operators := by
  induction waiting generalizing m with
  | nil => exact List.suffix_rfl
  | cons symbol waiting ih =>
    cases symbol with
    | operator op =>
      unfold settleFrom
      split
      · refine suffix_bind ?_ fun _ m₁ happly => suffix_bind ?_ fun _ m₂ hset => ?_
        · exact suffix_apply _ m
        · have kept := operators_apply (A := A) (.operator op) m
          rw [happly, hm] at kept
          change m₁.operators = _ at kept
          rw [kept]
          exact List.suffix_cons _ _
        · cases hset
          exact ih rfl
      · exact List.suffix_rfl
    | literal _ | named _ | parenLeft | parenRight | comma | function _ => exact List.suffix_rfl

theorem suffix_drainFrom {waiting : List (Symbol α)} {m : Machine α}
    (hm : m.operators = waiting) :
    (left (drainFrom A waiting m)).operators <:+ m.operators := by
  induction waiting generalizing m with
  | nil => exact List.suffix_rfl
  | cons symbol waiting ih =>
    unfold drainFrom
    refine suffix_bind ?_ fun _ m₁ hset => ?_
    · rw [hm]
      exact List.suffix_cons _ _
    · cases hset
      cases symbol with
      | parenLeft | function f => exact List.suffix_rfl
      | operator op =>
        refine suffix_bind ?_ fun _ m₂ happly => ih ?_
        · exact suffix_apply _ _
        · have kept := operators_apply (A := A) (.operator op) { m with operators := waiting }
          rw [happly] at kept
          exact kept
      | literal _ | named _ | parenRight | comma => exact ih rfl

theorem suffix_applyFunction (m : Machine α) :
    (left (applyFunction A m)).operators <:+ m.operators := by
  by_cases h : ∃ f waiting, m.operators = .function f :: waiting
  · obtain ⟨f, waiting, heq⟩ := h
    rw [applyFunction_of_function heq]
    refine suffix_bind ?_ fun _ m₁ happly => ?_
    · exact suffix_apply _ m
    · have kept := operators_apply (A := A) (.function f) m
      rw [happly, heq] at kept
      change m₁.operators = _ at kept
      rw [kept]
      exact List.suffix_cons _ _
  · rw [applyFunction_of_ne (by simpa using h)]
    exact List.suffix_rfl

theorem requireGroup_state (symbol : Symbol α) (m : Machine α) :
    left (requireGroup symbol m) = m := by
  rw [requireGroup_eq]
  split <;> rfl

theorem suffix_closeGroup (m : Machine α) :
    (left (closeGroup A m)).operators <:+ m.operators :=
  suffix_bind (x := drainFrom A m.operators) (suffix_drainFrom rfl)
    fun _ m' _ => suffix_applyFunction m'

/-- **A symbol that fails has only taken symbols away.** -/
theorem suffix_of_dispatch_error {symbol : Symbol α} {m m' : Machine α} {e : EvalError}
    (h : dispatch A symbol m = .error e m') : m'.operators <:+ m.operators := by
  have settled : ∀ (priority : Nat) (m₁ : Machine α),
      (settle A priority >>= fun _ => pushOperator symbol) m₁ = .error e m' →
        m'.operators <:+ m₁.operators := by
    intro priority m₁ h
    rcases error_bind h with h | ⟨_, _, _, h⟩
    · have settled : (left (settleFrom A priority m₁.operators m₁)).operators <:+ m₁.operators :=
        suffix_settleFrom rfl
      change settleFrom A priority m₁.operators m₁ = _ at h
      rwa [h] at settled
    · cases h
  unfold dispatch at h
  rcases error_bind h with h | ⟨_, m₁, hnote, h⟩
  · cases h
  have hops : m₁.operators = m.operators := by
    cases hnote
    rfl
  rw [← hops]
  have same := requireGroup_state symbol m₁
  rcases error_bind h with hgroup | ⟨_, m₂, hgroup, hrest⟩
  · rw [hgroup] at same
    obtain rfl : m' = m₁ := same
    exact List.suffix_rfl
  · rw [hgroup] at same
    obtain rfl : m₂ = m₁ := same
    cases symbol with
    | literal _ | named _ | parenLeft | function _ => cases hrest
    | operator op => exact settled op.priority m₂ hrest
    | comma => exact settled 0 m₂ hrest
    | parenRight =>
      have := suffix_closeGroup (A := A) m₂
      change closeGroup A m₂ = _ at hrest
      rwa [hrest] at this

/-! ## Failures on groups -/

section Groups

variable {frame : Frame} {outer : List Frame} {m m' : Machine α} {e : EvalError}
  (hm : m.operators = Frame.stack (frame :: outer))

include hm

theorem dispatch_ne_unmatched {symbol : Symbol α} (h : dispatch A symbol m = .error e m') :
    e ≠ .unmatchedParenthesis .right := by
  rintro rfl
  rcases dispatch_error hm h with ht | he
  · obtain ⟨f, -, -, he⟩ := Frame.turn_error ht
    cases he
  · cases he

/-- With a group open and no function on top, closing the group fails only for want of values. -/
theorem closeGroup_error (hf : frame.function = none) (h : closeGroup A m = .error e m') :
    e = .stackUnderflow := by
  have closed := effect_closeGroup (A := A) hm hf
  rw [h] at closed
  cases hr : Postfix.run A (frame.pending.map .operator ++ Frame.callee outer) m.values with
  | error e' =>
    rw [hr] at closed
    cases closed
    exact Postfix.run_error hr
  | ok values =>
    rw [hr] at closed
    cases closed

end Groups

/-! ## Between two tokens -/

/-- What a run on `tokens` reaches between two of them: the symbols that it has dispatched, the
tokens that are left, whether it regards its last group as closed, and its machine. -/
inductive Reached (A : Arithmetic α) (tokens : List (Except EvalError (Symbol α))) :
    List (Symbol α) → List (Except EvalError (Symbol α)) → Bool → Machine α → Prop where
  | start : Reached A tokens [] tokens false empty
  | next {before : List (Symbol α)} {symbol : Symbol α}
      {rest : List (Except EvalError (Symbol α))} {m m' : Machine α}
      (reached : Reached A tokens before (.ok symbol :: rest) false m)
      (dispatched : dispatch A symbol m = .ok () m') :
      Reached A tokens (before ++ [symbol]) rest (m'.isClosedBy symbol) m'

/-- A machine holds the groups that the symbols before it have left open. -/
structure Holds (before : List (Symbol α)) (closed : Bool) (m : Machine α) (frames : List Frame) :
    Prop where
  operators : m.operators = Frame.stack frames
  length : frames.length + before.countP Symbol.closes = before.countP Symbol.opens
  closed : before ≠ [] → closed = frames.isEmpty

section Reached

variable {tokens rest : List (Except EvalError (Symbol α))} {before : List (Symbol α)}
  {symbol : Symbol α} {closed : Bool} {m m' : Machine α} {frames : List Frame}

theorem Reached.tokens_eq (h : Reached A tokens before rest closed m) :
    tokens = before.map .ok ++ rest := by
  induction h with
  | start => rfl
  | next _ _ ih => simpa using ih

/-- A run goes on from what it has reached. -/
theorem Reached.feed_eq (h : Reached A tokens before rest closed m) :
    feed A false tokens empty = feed A closed rest m := by
  induction h with
  | start => rfl
  | @next _ symbol rest m m' _ dispatched ih =>
    rw [ih]
    change EStateM.bind (dispatch A symbol) _ m = _
    rw [EStateM.bind, dispatched]
    rfl

/-- **One symbol keeps the invariant** while a group is open. -/
theorem Holds.next {frame : Frame} {outer : List Frame}
    (h : Holds before false m (frame :: outer)) (dispatched : dispatch A symbol m = .ok () m') :
    ∃ frames, Holds (before ++ [symbol]) (m'.isClosedBy symbol) m' frames := by
  obtain ⟨program, frames, ht, hm', -⟩ := dispatch_ok h.operators dispatched
  exact ⟨frames, hm', Frame.length_add_countP_of_turn ht h.length, fun _ => isClosedBy_eq ht hm'⟩

/-- Without an open group the next token is the first. -/
theorem Holds.first (hold : Holds before false m [])
    (h : Reached A (.ok .parenLeft :: tokens) before (.ok symbol :: rest) false m) :
    before = [] ∧ symbol = .parenLeft := by
  cases before with
  | nil =>
    obtain ⟨⟨⟩, -⟩ := List.cons.inj h.tokens_eq
    exact ⟨rfl, rfl⟩
  | cons symbol before => cases hold.closed (List.cons_ne_nil _ _)

/-- **Between two tokens the machine holds groups**, when the first token opens one. -/
theorem Reached.holds (h : Reached A (.ok .parenLeft :: tokens) before rest closed m) :
    ∃ frames, Holds before closed m frames := by
  induction h with
  | start => exact ⟨[], rfl, rfl, fun hne => absurd rfl hne⟩
  | @next before symbol rest m m' reached dispatched ih =>
    obtain ⟨frames, hold⟩ := ih
    cases frames with
    | cons frame outer => exact hold.next dispatched
    | nil =>
      obtain ⟨rfl, rfl⟩ := hold.first reached
      have opened := effect_dispatch_parenLeft (A := A) hold.operators
      rw [dispatched] at opened
      simp only [effect, Except.ok.injEq, Prod.mk.injEq] at opened
      exact ⟨[.opened], opened.1, rfl, fun _ => rfl⟩

/-! ## What follows for a run -/

theorem exists_marks {frame : Frame} {outer : List Frame}
    (hm : m.operators = Frame.stack (frame :: outer)) (hf : frame.function = none) :
    ∃ marks below, m.operators = marks ++ .parenLeft :: below ∧
      ∀ mark ∈ marks, mark = .comma ∨ ∃ op, mark = .operator op := by
  refine ⟨frame.pending.map .operator ++ List.replicate frame.commas .comma, Frame.stack outer,
    ?_, ?_⟩
  · rw [hm, Frame.stack_cons, hf]
    simp
  · intro mark hmark
    rcases List.mem_append.1 hmark with hop | hcomma
    · obtain ⟨op, -, rfl⟩ := List.mem_map.1 hop
      exact .inr ⟨op, rfl⟩
    · exact .inl (List.eq_of_mem_replicate hcomma)

theorem waits_of_mem_stack (hm : symbol ∈ Frame.stack frames) : symbol.waits = true := by
  obtain ⟨frame, -, hsymbol⟩ := List.mem_flatMap.1 hm
  simp only [List.mem_reverse, Frame.symbols, List.mem_append, List.mem_cons, List.mem_map,
    List.mem_replicate] at hsymbol
  rcases hsymbol with (((rfl | ⟨-, rfl⟩) | ⟨op, -, rfl⟩) | ⟨op, -, rfl⟩) | ⟨f, -, rfl⟩ <;> rfl

/-- What is true of the waiting symbols between two tokens, and when the next one fails. -/
structure Orderly (A : Arithmetic α) (before : List (Symbol α))
    (rest : List (Except EvalError (Symbol α))) (closed : Bool) (m : Machine α) : Prop where
  /-- From the bottom to the top they are the groups that are open. -/
  layout : ∃ frames : List Frame, m.operators.reverse = frames.flatMap Frame.symbols ∧
    frames.length + before.countP Symbol.closes = before.countP Symbol.opens
  /-- Nothing waits exactly when the last group is closed. -/
  closed_iff : before ≠ [] → (m.operators = [] ↔ closed = true)
  waits : ∀ symbol ∈ m.operators, symbol.waits = true
  /-- A token that fails has only taken symbols away, and does not miss a parenthesis. -/
  failed : ∀ {symbol rest' e m'}, rest = .ok symbol :: rest' → closed = false →
    dispatch A symbol m = .error e m' →
      m'.operators <:+ m.operators ∧ e ≠ .unmatchedParenthesis .right
  /-- When a group is closed its parenthesis is there, with no function on top of it, and only
  values can be missing. -/
  closing : ∀ {rest' m₁}, rest = .ok .parenRight :: rest' → closed = false →
    (note (.dispatched .parenRight) >>= fun _ => requireGroup .parenRight) m = .ok () m₁ →
      (∃ marks below, m₁.operators = marks ++ .parenLeft :: below ∧
        ∀ mark ∈ marks, mark = .comma ∨ ∃ op, mark = .operator op) ∧
      ∀ {e m₂}, closeGroup A m₁ = .error e m₂ → e = .stackUnderflow

theorem Reached.orderly (h : Reached A (.ok .parenLeft :: tokens) before rest closed m) :
    Orderly A before rest closed m := by
  obtain ⟨frames, hold⟩ := h.holds
  refine ⟨⟨frames.reverse, ?_, ?_⟩, fun hne => ?_, fun symbol hmem => ?_, ?_, ?_⟩
  · rw [hold.operators, Frame.reverse_stack]
  · rw [List.length_reverse, hold.length]
  · rw [hold.operators, Frame.stack_eq_nil, hold.closed hne, List.isEmpty_iff]
  · rw [hold.operators] at hmem
    exact waits_of_mem_stack hmem
  · rintro symbol rest' e m' rfl rfl hfail
    refine ⟨suffix_of_dispatch_error hfail, ?_⟩
    cases frames with
    | cons frame outer => exact dispatch_ne_unmatched hold.operators hfail
    | nil =>
      obtain ⟨rfl, rfl⟩ := hold.first h
      have opened := effect_dispatch_parenLeft (A := A) hold.operators
      rw [hfail] at opened
      cases opened
  · rintro rest' m₁ rfl rfl hgroup
    cases frames with
    | nil => cases (hold.first h).2
    | cons frame outer =>
      change requireGroup .parenRight { m with steps := .dispatched .parenRight :: m.steps } = _
        at hgroup
      have same := requireGroup_state .parenRight
        { m with steps := .dispatched .parenRight :: m.steps }
      rw [hgroup] at same
      have hm₁ : m₁.operators = Frame.stack (frame :: outer) :=
        (congrArg operators same).trans hold.operators
      have hf : frame.function = none := by
        cases hf : frame.function with
        | none => rfl
        | some f =>
          have noted : ({ m with steps := .dispatched .parenRight :: m.steps } :
              Machine α).operators = Frame.stack (frame :: outer) := hold.operators
          rw [requireGroup_error noted hf (by simp)] at hgroup
          cases hgroup
      exact ⟨exists_marks hm₁ hf, closeGroup_error hm₁ hf⟩

theorem finish_error {e : EvalError} (h : finish m = .error e m') :
    e ≠ .unmatchedParenthesis .right := by
  unfold finish at h
  split at h
  · split at h <;> cases h <;> simp
  · cases h
    simp

/-- A run that misses an opening parenthesis has come behind its last group. -/
theorem Reached.exists_closed (h : Reached A (.ok .parenLeft :: tokens) before rest closed m)
    (herr : ∀ e, .error e ∈ rest → e ≠ .unmatchedParenthesis .right)
    (hfeed : feed A closed rest m = .error (.unmatchedParenthesis .right) m') :
    ∃ before symbol rest m,
      Reached A (.ok .parenLeft :: tokens) before (.ok symbol :: rest) true m := by
  induction rest generalizing before closed m with
  | nil => cases hfeed
  | cons token rest ih =>
    match token, closed with
    | .error e, _ =>
      cases hfeed
      exact absurd rfl (herr _ List.mem_cons_self)
    | .ok symbol, true => exact ⟨before, symbol, rest, m, h⟩
    -- with a group open the failure is not at this token, so it is further on
    | .ok symbol, false =>
      change (dispatch A symbol >>= fun _ => get >>= fun m₁ =>
        feed A (m₁.isClosedBy symbol) rest) m = _ at hfeed
      rcases error_bind hfeed with hfail | ⟨_, m₁, dispatched, hrest⟩
      · exact absurd rfl (h.orderly.failed rfl rfl hfail).2
      · exact ih (h.next dispatched) (fun e he => herr e (List.mem_cons_of_mem _ he)) hrest

end Reached

end Machine

namespace SymbolTable

variable {table : SymbolTable}

/-- **The waiting symbols of a run are orderly** between any two tokens of any expression, and a
parenthesis is missed only behind the last group. What is reached is what the run goes on from. -/
theorem Built.orderly_of_reached (built : table.Built) {A : Arithmetic Float}
    {expression source : String} (hs : prepare expression = .ok source) :
    (∀ {before rest closed m}, Machine.Reached A (table.tokens source) before rest closed m →
      Machine.feed A false (table.tokens source) .empty = Machine.feed A closed rest m ∧
        Machine.Orderly A before rest closed m) ∧
    (table.evaluate A expression = .error (.unmatchedParenthesis .right) →
      ∃ before symbol rest m,
        Machine.Reached A (table.tokens source) before (.ok symbol :: rest) true m) := by
  have htokens : ∃ tokens, table.tokens source = .ok .parenLeft :: tokens := by
    rw [prepare_eq] at hs
    split at hs
    · cases hs
    · cases hs
      rw [tokens_ofList, built.scan_group]
      exact ⟨_, rfl⟩
  have herr : ∀ e, .error e ∈ table.tokens source → e ≠ .unmatchedParenthesis .right := by
    rintro _ hmem rfl
    obtain ⟨lexeme, -, hlexeme⟩ := List.mem_map.1 hmem
    cases classify_error hlexeme
  obtain ⟨tokens, htokens⟩ := htokens
  rw [evaluate_eq_run, hs]
  simp only [Except.bind]
  rw [htokens] at herr ⊢
  refine ⟨fun h => ⟨h.feed_eq, h.orderly⟩, fun h => ?_⟩
  cases hrun : Machine.run A (.ok .parenLeft :: tokens) .empty with
  | ok value m =>
    rw [hrun] at h
    cases h
  | error e m =>
    rw [hrun] at h
    cases h
    rcases Machine.error_bind hrun with hfeed | ⟨_, m₁, -, hfinish⟩
    · exact Machine.Reached.start.exists_closed herr hfeed
    · exact absurd rfl (Machine.finish_error hfinish)

/-- Of `2)(3` the first group is closed when there are still tokens left. -/
theorem orderly_of_reached_closed :
    ∃ before rest, ∃ m : Machine Float, Machine.Orderly .ieee before rest true m ∧
      rest ≠ [] ∧ SymbolTable.standard.evaluate .ieee "2)(3" =
        .error (.unmatchedParenthesis .right) := by
  have hs : prepare "2)(3" = .ok "(2)(3)" := rfl
  have ht : standard.tokens "(2)(3)" = [.ok .parenLeft, .ok (.literal 2), .ok .parenRight,
      .ok .parenLeft, .ok (.literal 3), .ok .parenRight] := by
    decide +kernel
  have reached : ∃ before rest m, rest ≠ [] ∧
      Machine.Reached .ieee (standard.tokens "(2)(3)") before rest true m := by
    rw [ht]
    refine ⟨_, _, _, ?_, @Machine.Reached.next Float .ieee _ _ .parenRight _ _ _
      (@Machine.Reached.next Float .ieee _ _ (.literal 2) _ _ _
        (@Machine.Reached.next Float .ieee _ _ .parenLeft _ _ _ .start rfl) rfl) rfl⟩
    simp
  obtain ⟨before, rest, m, hne, reached⟩ := reached
  obtain ⟨-, orderly⟩ := (Built.orderly_of_reached .standard hs).1 reached
  exact ⟨before, rest, m, orderly, hne, by decide +kernel⟩

end SymbolTable

end Reckoner
