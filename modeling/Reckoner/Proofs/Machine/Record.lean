import Mathlib.Data.List.Perm.Subperm
import Reckoner.Proofs.OperatorStack

/-!
# The record of a run

The steps that a machine puts on record are a postfix run of their own (`Step.Replays`): a number
goes onto the stack when the machine turns to it, an operator or a function takes its operands from
there when it is applied, and the value on record is the one that it gives. Each operator, function
and comma is settled once after the machine turned to it, or it still waits (`Machine.Records`). So
the record of a run that fails anywhere is still `Step.Faithful`, and that of a run with a value is
`Step.Complete`.
-/

namespace Reckoner

variable {α β γ : Type} {A : Arithmetic α}

namespace Symbol

/-- The number that a symbol stands for. -/
def number? : Symbol α → Option α
  | literal value | named value => some value
  | parenLeft | parenRight | comma | operator _ | function _ => none

/-- Whether a symbol gives a value for its operands. -/
def isApplicable : Symbol α → Bool
  | operator _ | function _ => true
  | literal _ | named _ | parenLeft | parenRight | comma => false

def isComma : Symbol α → Bool
  | comma => true
  | literal _ | named _ | parenLeft | parenRight | operator _ | function _ => false

theorem eval_of_isApplicable : ∀ {symbol : Symbol α} (values : List α), symbol.isApplicable = true →
    (∃ value rest, symbol.eval A values = .ok (some value) rest ∧
      symbol.act A values = .ok (value :: rest)) ∨
    ∃ e rest, symbol.eval A values = .error e rest
  | operator _, [], _ | operator _, [_], _ => .inr ⟨_, _, rfl⟩
  | operator _, _ :: _ :: _, _ => .inl ⟨_, _, rfl, rfl⟩
  | function (.unary _), [], _ => .inr ⟨_, _, rfl⟩
  | function (.unary _), _ :: _, _ => .inl ⟨_, _, rfl, rfl⟩
  | function (.binary _), [], _ | function (.binary _), [_], _ => .inr ⟨_, _, rfl⟩
  | function (.binary _), _ :: _ :: _, _ => .inl ⟨_, _, rfl, rfl⟩
  | literal _, _, h | named _, _, h | parenLeft, _, h | parenRight, _, h | comma, _, h => by cases h

end Symbol

/-! ## Steps -/

namespace Step

def dispatched? : Step α → Option (Symbol α)
  | dispatched symbol => some symbol
  | applied _ _ | discarded _ => none

def applied? : Step α → Option (Symbol α)
  | applied symbol _ => some symbol
  | dispatched _ | discarded _ => none

def discarded? : Step α → Option (Symbol α)
  | discarded symbol => some symbol
  | dispatched _ | applied _ _ => none

/-- Steps as a postfix run from the values before them to those behind. -/
inductive Replays (A : Arithmetic α) : List (Step α) → List α → List α → Prop where
  | done (values : List α) : Replays A [] values values
  | number {symbol : Symbol α} {value : α} {steps : List (Step α)} {values left : List α}
      (h : symbol.number? = some value) (rest : Replays A steps (value :: values) left) :
      Replays A (dispatched symbol :: steps) values left
  | turned {symbol : Symbol α} {steps : List (Step α)} {values left : List α}
      (h : symbol.number? = none) (rest : Replays A steps values left) :
      Replays A (dispatched symbol :: steps) values left
  | applied {symbol : Symbol α} {value : α} {steps : List (Step α)} {values below left : List α}
      (h : symbol.act A values = .ok (value :: below))
      (rest : Replays A steps (value :: below) left) :
      Replays A (applied symbol value :: steps) values left
  | discarded {symbol : Symbol α} {steps : List (Step α)} {values left : List α}
      (rest : Replays A steps values left) : Replays A (discarded symbol :: steps) values left

section Replays

variable {first second steps : List (Step α)} {values middle left : List α}

theorem Replays.append (h : Replays A first values middle) (h' : Replays A second middle left) :
    Replays A (first ++ second) values left := by
  induction h with
  | done => exact h'
  | number hs _ ih => exact .number hs (ih h')
  | turned hs _ ih => exact .turned hs (ih h')
  | applied hs _ ih => exact .applied hs (ih h')
  | discarded _ ih => exact .discarded (ih h')

theorem Replays.append_inv (h : Replays A (first ++ second) values left) :
    ∃ middle, Replays A first values middle ∧ Replays A second middle left := by
  induction first generalizing values with
  | nil => exact ⟨values, .done values, h⟩
  | cons step first ih =>
    cases h with
    | number hs rest =>
      obtain ⟨middle, hfirst, hsecond⟩ := ih rest
      exact ⟨middle, .number hs hfirst, hsecond⟩
    | turned hs rest =>
      obtain ⟨middle, hfirst, hsecond⟩ := ih rest
      exact ⟨middle, .turned hs hfirst, hsecond⟩
    | applied hs rest =>
      obtain ⟨middle, hfirst, hsecond⟩ := ih rest
      exact ⟨middle, .applied hs hfirst, hsecond⟩
    | discarded rest =>
      obtain ⟨middle, hfirst, hsecond⟩ := ih rest
      exact ⟨middle, .discarded hfirst, hsecond⟩

/-- Without applications values are only added. -/
theorem Replays.suffix (h : Replays A steps values left) (none : steps.filterMap applied? = []) :
    values <:+ left := by
  induction h with
  | done => exact List.suffix_rfl
  | number _ _ ih => exact (List.suffix_cons _ _).trans (ih none)
  | turned _ _ ih => exact ih none
  | applied _ _ _ => cases none
  | discarded _ ih => exact ih none

/-- The last value on record is the one that is left, if no other is. -/
theorem Replays.eq_of_last {symbol : Symbol α} {value result : α} {back : List (Step α)}
    (h : Replays A (first ++ .applied symbol value :: back) values [result])
    (none : back.filterMap applied? = []) : value = result := by
  obtain ⟨middle, -, hback⟩ := h.append_inv
  cases hback with
  | applied _ rest =>
    have hsuffix := rest.suffix none
    have hlen := hsuffix.length_le
    obtain rfl := List.length_eq_zero_iff.1 (Nat.le_zero.1 (Nat.le_of_succ_le_succ hlen))
    exact (List.cons.inj (hsuffix.eq_of_length rfl)).1

end Replays

/-- A record that may end anywhere: it is a postfix run, and nothing is settled that the machine has
not turned to, or more often than that. -/
structure Faithful (A : Arithmetic α) (steps : List (Step α)) : Prop where
  replays : ∃ values, Replays A steps [] values
  applied : (steps.filterMap applied?).Subperm
    ((steps.filterMap dispatched?).filter Symbol.isApplicable)
  discarded : (steps.filterMap discarded?).Subperm
    ((steps.filterMap dispatched?).filter Symbol.isComma)

/-- The record of a run over all of `symbols` that leaves `value`. -/
structure Complete (A : Arithmetic α) (symbols : List (Symbol α)) (value : α)
    (steps : List (Step α)) : Prop where
  replays : Replays A steps [] [value]
  dispatched : steps.filterMap dispatched? = symbols
  applied : (steps.filterMap applied?).Perm (symbols.filter Symbol.isApplicable)
  discarded : (steps.filterMap discarded?).Perm (symbols.filter Symbol.isComma)

end Step

namespace Machine

open Step

/-! ## A machine and its record -/

/-- A machine has turned to `before`, has settled all of it but `waiting`, and has put on record how
its values came about. -/
structure Records (A : Arithmetic α) (before waiting : List (Symbol α)) (m : Machine α) :
    Prop where
  replays : Replays A m.steps.reverse [] m.values
  dispatched : m.steps.reverse.filterMap dispatched? = before
  applied : (m.steps.filterMap applied? ++ waiting.filter Symbol.isApplicable).Perm
    (before.filter Symbol.isApplicable)
  discarded : (m.steps.filterMap discarded? ++ waiting.filter Symbol.isComma).Perm
    (before.filter Symbol.isComma)
  waits : ∀ symbol ∈ waiting, symbol.waits = true

/-- Where an action ends: in a machine with the property, or in a failure on a faithful record. -/
def Ends (A : Arithmetic α) (P : Machine α → Prop) :
    EStateM.Result EvalError (Machine α) β → Prop
  | .ok _ m => P m
  | .error _ m => Faithful A m.steps.reverse

theorem Ends.bind {P Q : Machine α → Prop} {x : Action α β} {f : β → Action α γ} {m : Machine α}
    (hx : Ends A P (x m)) (hf : ∀ a m', P m' → Ends A Q (f a m')) : Ends A Q ((x >>= f) m) := by
  change Ends A Q (EStateM.bind x f m)
  unfold EStateM.bind
  cases h : x m with
  | ok a m' =>
    rw [h] at hx
    exact hf a m' hx
  | error e m' =>
    rw [h] at hx
    exact hx

section Records

variable {before waiting : List (Symbol α)} {symbol : Symbol α} {m : Machine α}

theorem records_empty : Records A [] [] (empty : Machine α) :=
  ⟨.done [], rfl, .refl _, .refl _, by simp⟩

/-- What still waits does not make a record less faithful. -/
theorem Records.faithful (h : Records A before waiting m) : Faithful A m.steps.reverse := by
  have rest : ∀ {settled left whole : List (Symbol α)}, (settled ++ left).Perm whole →
      settled.reverse.Subperm whole := by
    intro settled left whole hperm
    have all := (List.sublist_append_left settled left).subperm.trans hperm.subperm
    exact (List.reverse_perm settled).subperm.trans all
  refine ⟨⟨_, h.replays⟩, ?_, ?_⟩
  · rw [h.dispatched, List.filterMap_reverse]
    exact rest h.applied
  · rw [h.dispatched, List.filterMap_reverse]
    exact rest h.discarded

/-- The order in which symbols wait is of no account. -/
theorem Records.perm {waiting' : List (Symbol α)} (h : Records A before waiting m)
    (hp : waiting'.Perm waiting) : Records A before waiting' m :=
  ⟨h.replays, h.dispatched, ((hp.filter _).append_left _).trans h.applied,
    ((hp.filter _).append_left _).trans h.discarded, fun symbol hs => h.waits symbol (hp.subset hs)⟩

theorem Records.setOperators (h : Records A before waiting m) (operators : List (Symbol α)) :
    Records A before waiting { m with operators } :=
  ⟨h.replays, h.dispatched, h.applied, h.discarded, h.waits⟩

/-- An operator or function that waited is applied. -/
theorem ends_apply (hs : symbol.isApplicable = true)
    (h : Records A before (symbol :: waiting) m) :
    Ends A (fun m' => Records A before waiting m' ∧ m'.operators = m.operators)
      (apply A symbol m) := by
  unfold apply
  rcases Symbol.eval_of_isApplicable (A := A) m.values hs with
    ⟨value, rest, heval, hact⟩ | ⟨e, rest, heval⟩
  · rw [heval]
    have comma : symbol.isComma = false := by cases symbol <;> first | rfl | cases hs
    have applied := h.applied
    have discarded := h.discarded
    rw [List.filter_cons_of_pos hs] at applied
    rw [List.filter_cons_of_neg (by simp [comma])] at discarded
    refine ⟨⟨?_, ?_, List.perm_middle.symm.trans applied, discarded,
      (List.forall_mem_cons.1 h.waits).2⟩, rfl⟩
    · rw [List.reverse_cons]
      exact h.replays.append (.applied hact (.done _))
    · rw [List.reverse_cons, List.filterMap_append, h.dispatched]
      exact List.append_nil before
  · rw [heval]
    exact h.faithful

/-- A comma that waited is dropped. -/
theorem Records.discard (h : Records A before (.comma :: waiting) m) :
    Records A before waiting { m with steps := .discarded .comma :: m.steps } := by
  refine ⟨?_, ?_, h.applied, List.perm_middle.symm.trans h.discarded,
    (List.forall_mem_cons.1 h.waits).2⟩
  · rw [List.reverse_cons]
    exact h.replays.append (.discarded (.done _))
  · rw [List.reverse_cons, List.filterMap_append, h.dispatched]
    exact List.append_nil before

/-! ## The loops -/

/-- Settling takes symbols that waited, above any that are held back. -/
theorem ends_settleFrom {priority : Nat} (held : List (Symbol α)) (hm : m.operators = waiting)
    (h : Records A before (held ++ waiting) m) :
    Ends A (fun m' => Records A before (held ++ m'.operators) m')
      (settleFrom A priority waiting m) := by
  have stop : Records A before (held ++ m.operators) m := hm ▸ h
  induction waiting generalizing m with
  | nil => exact stop
  | cons symbol waiting ih =>
    cases symbol with
    | operator op =>
      unfold settleFrom
      split
      · refine (ends_apply rfl (h.perm List.perm_middle.symm)).bind fun _ m₁ happlied => ?_
        have hset := happlied.1.setOperators waiting
        exact Ends.bind (P := fun m₂ => m₂ = { m₁ with operators := waiting }) rfl
          fun _ m₂ heq => heq ▸ ih rfl hset hset
      · exact stop
    | literal _ | named _ | parenLeft | parenRight | comma | function _ => exact stop

/-- Draining takes symbols that waited, down to the parenthesis. -/
theorem ends_drainFrom (h : Records A before waiting m) :
    Ends A (fun m' => Records A before m'.operators m') (drainFrom A waiting m) := by
  induction waiting generalizing m with
  | nil => exact h.faithful
  | cons symbol waiting ih =>
    have hset := h.setOperators waiting
    have hwaits := h.waits symbol List.mem_cons_self
    unfold drainFrom
    refine Ends.bind (P := fun m₁ => m₁ = { m with operators := waiting }) rfl fun _ m₁ heq => ?_
    subst heq
    cases symbol with
    | parenLeft =>
      exact ⟨hset.replays, hset.dispatched, hset.applied, hset.discarded,
        (List.forall_mem_cons.1 hset.waits).2⟩
    | function f => exact hset.faithful
    | operator op => exact (ends_apply rfl hset).bind fun _ m₂ happlied => ih happlied.1
    | comma =>
      exact Ends.bind (P := Records A before waiting) hset.discard fun _ m₂ hm₂ => ih hm₂
    | literal _ | named _ | parenRight => cases hwaits

theorem ends_applyFunction (h : Records A before m.operators m) :
    Ends A (fun m' => Records A before m'.operators m') (applyFunction A m) := by
  by_cases hf : ∃ f waiting, m.operators = .function f :: waiting
  · obtain ⟨f, waiting, heq⟩ := hf
    rw [applyFunction_of_function heq]
    rw [heq] at h
    refine (ends_apply rfl h).bind fun _ m₁ happlied => ?_
    exact happlied.1.setOperators waiting
  · rw [applyFunction_of_ne (by simpa using hf)]
    exact h

/-! ## One symbol -/

/-- To turn to a symbol puts it on record, and lets it wait if it is no number. -/
theorem Records.turn (h : Records A before waiting m) (hs : symbol.number? = none) :
    Records A (before ++ [symbol]) ([symbol].filter Symbol.waits ++ waiting)
      { m with steps := .dispatched symbol :: m.steps } := by
  have account : ∀ {p : Symbol α → Bool} {settled : List (Symbol α)},
      (p symbol = true → symbol.waits = true) →
      (settled ++ waiting.filter p).Perm (before.filter p) →
      (settled ++ ([symbol].filter Symbol.waits ++ waiting).filter p).Perm
        ((before ++ [symbol]).filter p) := by
    intro p settled hp hperm
    have same : ([symbol].filter Symbol.waits).filter p = [symbol].filter p := by
      rw [List.filter_filter]
      refine List.filter_congr fun s hmem => ?_
      cases List.mem_singleton.1 hmem
      cases hps : p symbol with
      | false => rfl
      | true => rw [hp hps]; rfl
    rw [List.filter_append, List.filter_append, same]
    refine List.perm_append_comm_assoc _ _ _ |>.trans ?_
    exact (List.perm_append_comm).trans (hperm.append_right _)
  refine ⟨?_, ?_, account ?_ h.applied, account ?_ h.discarded, ?_⟩
  · rw [List.reverse_cons]
    exact h.replays.append (.turned hs (.done _))
  · rw [List.reverse_cons, List.filterMap_append, h.dispatched]
    rfl
  · cases symbol <;> simp [Symbol.isApplicable, Symbol.waits]
  · cases symbol <;> simp [Symbol.isComma, Symbol.waits]
  · intro other hmem
    rcases List.mem_append.1 hmem with hmem | hmem
    · exact (List.mem_filter.1 hmem).2
    · exact h.waits other hmem

/-- To turn to a number puts it on record, and its value on the stack. -/
theorem Records.turn_number {value : α} (h : Records A before waiting m)
    (hs : symbol.number? = some value) :
    Records A (before ++ [symbol]) waiting
      { m with values := value :: m.values, steps := .dispatched symbol :: m.steps } := by
  have same : ∀ {p : Symbol α → Bool}, p symbol = false →
      (before ++ [symbol]).filter p = before.filter p := by
    intro p hp
    rw [List.filter_append, List.filter_cons_of_neg (by simp [hp]), List.filter_nil,
      List.append_nil]
  refine ⟨?_, ?_, ?_, ?_, h.waits⟩
  · rw [List.reverse_cons]
    exact h.replays.append (.number hs (.done _))
  · rw [List.reverse_cons, List.filterMap_append, h.dispatched]
    rfl
  · rw [same (by cases symbol <;> first | rfl | cases hs)]
    exact h.applied
  · rw [same (by cases symbol <;> first | rfl | cases hs)]
    exact h.discarded

/-- With a symbol on record, a function that waits in front of it changes nothing or fails. -/
theorem ends_requireGroup (h : Faithful A m.steps.reverse) :
    Ends A (fun m' => m' = m) (requireGroup symbol m) := by
  have same := requireGroup_state symbol m
  cases hgroup : requireGroup symbol m with
  | ok u m' =>
    rw [hgroup] at same
    exact same
  | error e m' =>
    rw [hgroup] at same
    cases same
    exact h

/-- **One symbol keeps the record**: of the machine if it succeeds, and a faithful one if not. -/
theorem ends_dispatch (symbol : Symbol α) (h : Records A before m.operators m) :
    Ends A (fun m' => Records A (before ++ [symbol]) m'.operators m') (dispatch A symbol m) := by
  refine Ends.bind (P := fun m₁ => m₁ = { m with steps := .dispatched symbol :: m.steps }) rfl
    fun _ m₁ heq => ?_
  cases hs : symbol.number? with
  | some value =>
    have hturn := h.turn_number hs
    have hfaithful : Faithful A m₁.steps.reverse := heq ▸ hturn.faithful
    refine (ends_requireGroup hfaithful).bind fun _ m₂ heq' => ?_
    subst heq' heq
    cases symbol with
    | literal _ | named _ =>
      cases hs
      exact hturn
    | parenLeft | parenRight | comma | operator _ | function _ => cases hs
  | none =>
    have hturn := h.turn hs
    have hfaithful : Faithful A m₁.steps.reverse := heq ▸ hturn.faithful
    refine (ends_requireGroup hfaithful).bind fun _ m₂ heq' => ?_
    subst heq' heq
    cases symbol with
    | literal _ | named _ => cases hs
    | parenLeft | function _ => exact hturn.setOperators _
    | parenRight =>
      change Ends A _ ((drainFrom A m.operators >>= fun _ => applyFunction A) _)
      exact (ends_drainFrom hturn).bind fun _ m₃ hm₃ => ends_applyFunction hm₃
    | comma =>
      exact (ends_settleFrom [.comma] rfl hturn).bind
        fun _ m₃ hm₃ => hm₃.setOperators _
    | operator op =>
      exact (ends_settleFrom [.operator op] rfl hturn).bind
        fun _ m₃ hm₃ => hm₃.setOperators _

end Records

/-! ## Runs -/

section Runs

variable {tokens rest : List (Except EvalError (Symbol α))} {before : List (Symbol α)}
  {closed : Bool} {m m' : Machine α}

/-- **Between two tokens** the record tells how the machine got there. -/
theorem Reached.records (h : Reached A tokens before rest closed m) :
    Records A before m.operators m := by
  induction h with
  | start => exact records_empty
  | @next _ symbol _ _ _ _ dispatched ih =>
    have ends := ends_dispatch symbol ih
    rw [dispatched] at ends
    exact ends

/-- A run reaches the end of its tokens or fails on a faithful record. -/
theorem Reached.ends_feed (h : Reached A tokens before rest closed m) :
    Ends A (fun m' => ∃ symbols closed', Reached A tokens symbols [] closed' m')
      (feed A closed rest m) := by
  induction rest generalizing before closed m with
  | nil => exact ⟨before, closed, h⟩
  | cons token rest ih =>
    match token, closed with
    | .error e, _ => exact h.records.faithful
    | .ok symbol, true => exact h.records.faithful
    | .ok symbol, false =>
      change Ends A _ ((dispatch A symbol >>= fun _ => get >>= fun m₁ =>
        feed A (m₁.isClosedBy symbol) rest) m)
      have ends := ends_dispatch symbol h.records
      cases hd : dispatch A symbol m with
      | ok u m₁ =>
        change Ends A _ (EStateM.bind _ _ m)
        rw [EStateM.bind, hd]
        exact ih (h.next hd)
      | error e m₁ =>
        change Ends A _ (EStateM.bind _ _ m)
        rw [EStateM.bind, hd]
        rwa [hd] at ends

theorem finish_ok {value : α} (h : finish m = .ok value m') :
    m.operators = [] ∧ m.values = [value] ∧ m'.steps = m.steps := by
  unfold finish at h
  split at h
  · next hops =>
    split at h
    · cases h
    · next heq =>
      cases h
      exact ⟨List.isEmpty_iff.1 hops, heq, rfl⟩
    · cases h
  · cases h

theorem finish_state (m : Machine α) : (left (finish m)).steps = m.steps := by
  unfold finish
  split
  · split <;> rfl
  · rfl

/-- **The record of a run** is faithful, however the run ends. -/
theorem faithful_run (A : Arithmetic α) (tokens : List (Except EvalError (Symbol α))) :
    Faithful A (left (run A tokens empty)).steps.reverse := by
  have fed := (Reached.start : Reached A tokens [] tokens false empty).ends_feed
  have ends : Ends A (fun m' => Faithful A m'.steps.reverse) (run A tokens empty) := by
    refine fed.bind fun _ m₁ ⟨symbols, closed, hreached⟩ => ?_
    have hfaithful := hreached.records.faithful
    rw [← finish_state m₁] at hfaithful
    cases hfinish : finish m₁ <;> rw [hfinish] at hfaithful <;> exact hfaithful
  cases hrun : run A tokens empty <;> rw [hrun] at ends <;> exact ends

/-- **The record of a run with a value** is complete. -/
theorem complete_run {value : α} (h : run A tokens empty = .ok value m) :
    ∃ symbols : List (Symbol α), tokens = symbols.map .ok ∧
      Complete A symbols value m.steps.reverse := by
  have fed := (Reached.start : Reached A tokens [] tokens false empty).ends_feed
  change EStateM.bind (feed A false tokens) _ empty = _ at h
  rw [EStateM.bind] at h
  cases hfeed : feed A false tokens empty with
  | error e m₁ =>
    rw [hfeed] at h
    cases h
  | ok u m₁ =>
    rw [hfeed] at h fed
    obtain ⟨symbols, closed, hreached⟩ := fed
    obtain ⟨hops, hvalues, hsteps⟩ := finish_ok h
    obtain ⟨replays, dispatched, applied, discarded, -⟩ := hreached.records
    have htokens := hreached.tokens_eq
    rw [List.append_nil] at htokens
    rw [hops, List.filter_nil, List.append_nil] at applied discarded
    rw [hvalues] at replays
    refine ⟨symbols, htokens, ?_⟩
    rw [hsteps]
    refine ⟨replays, dispatched, ?_, ?_⟩
    · rw [List.filterMap_reverse]
      exact (List.reverse_perm _).trans applied
    · rw [List.filterMap_reverse]
      exact (List.reverse_perm _).trans discarded

end Runs

end Machine

end Reckoner
