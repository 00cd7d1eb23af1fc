import Reckoner.Machine

/-!
# Runs on other numbers

A map of numbers takes symbols, steps and machines along (`Symbol.map`, `Step.map`, `Machine.map`).
If it respects what the operators and functions compute (`Arithmetic.Maps`), then it takes whole
runs along: what a machine does with the images is the image of what it does
(`Machine.carries_run`), record of steps included. To take all numbers for one respects any
arithmetic, so runs on tokens that differ in their numbers alone differ in nothing else
(`Machine.mapResult_run`).
-/

namespace Reckoner

variable {α β γ δ : Type}

/-- A symbol with its number replaced by its image. -/
def Symbol.map (f : α → β) : Symbol α → Symbol β
  | literal value => literal (f value)
  | named value => named (f value)
  | parenLeft => parenLeft
  | parenRight => parenRight
  | comma => comma
  | operator op => operator op
  | function builtin => function builtin

/-- A step with its numbers replaced by their images. -/
def Step.map (f : α → β) : Step α → Step β
  | dispatched symbol => dispatched (symbol.map f)
  | applied symbol value => applied (symbol.map f) (f value)
  | discarded symbol => discarded (symbol.map f)

/-- Operators and functions compute alike on numbers and on their images. -/
structure Arithmetic.Maps (f : α → β) (A : Arithmetic α) (B : Arithmetic β) : Prop where
  operator : ∀ op left right, f (A.operator op left right) = B.operator op (f left) (f right)
  unary : ∀ builtin value, f (A.unary builtin value) = B.unary builtin (f value)
  binary : ∀ builtin left right,
    f (A.binary builtin left right) = B.binary builtin (f left) (f right)

/-- Takes all numbers for one. -/
def forget (_ : α) : Unit := ()

/-- The arithmetic of a single number. -/
def Arithmetic.single : Arithmetic Unit :=
  ⟨fun _ _ _ => (), fun _ _ => (), fun _ _ _ => ()⟩

theorem Arithmetic.maps_forget (A : Arithmetic α) : A.Maps forget single :=
  ⟨fun _ _ _ => rfl, fun _ _ => rfl, fun _ _ _ => rfl⟩

/-- A symbol has the images of its results on the images of its operands. -/
theorem Symbol.eval_map {f : α → β} {A : Arithmetic α} {B : Arithmetic β} (h : A.Maps f B) :
    ∀ (symbol : Symbol α) (values : List α), (symbol.map f).eval B (values.map f) =
      match symbol.eval A values with
      | .ok value rest => .ok (value.map f) (rest.map f)
      | .error e rest => .error e (rest.map f)
  | literal _, _ | named _, _ | parenLeft, _ | parenRight, _ | comma, _ => rfl
  | operator _, [] | operator _, [_] => rfl
  | operator op, right :: left :: rest =>
    congrArg (fun value => EStateM.Result.ok (some value) (rest.map f))
      (h.operator op left right).symm
  | function (.unary _), [] => rfl
  | function (.unary builtin), value :: rest =>
    congrArg (fun value => EStateM.Result.ok (some value) (rest.map f)) (h.unary builtin value).symm
  | function (.binary _), [] | function (.binary _), [_] => rfl
  | function (.binary builtin), right :: left :: rest =>
    congrArg (fun value => EStateM.Result.ok (some value) (rest.map f))
      (h.binary builtin left right).symm

namespace Machine

/-- A machine with all its numbers replaced by their images. -/
def map (f : α → β) (m : Machine α) : Machine β :=
  ⟨m.operators.map (Symbol.map f), m.values.map f, m.steps.map (Step.map f)⟩

/-- How an action ended, with all numbers replaced by their images. -/
def mapResult (f : α → β) (g : γ → δ) :
    EStateM.Result EvalError (Machine α) γ → EStateM.Result EvalError (Machine β) δ
  | .ok a m => .ok (g a) (m.map f)
  | .error e m => .error e (m.map f)

/-- On images one action does what the other one does, and gives the image of its result. -/
def Carries (f : α → β) (g : γ → δ) (x : Action α γ) (y : Action β δ) : Prop :=
  ∀ m, y (m.map f) = mapResult f g (x m)

/-! ## Actions one behind the other -/

section Actions

variable {f : α → β} {g : γ → δ}

theorem Carries.bind {γ' δ' : Type} {g' : γ' → δ'} {x : Action α γ} {y : Action β δ}
    {p : γ → Action α γ'} {q : δ → Action β δ'} (h : Carries f g x y)
    (hp : ∀ a, Carries f g' (p a) (q (g a))) : Carries f g' (x >>= p) (y >>= q) := by
  intro m
  change EStateM.bind y q (m.map f) = mapResult f g' (EStateM.bind x p m)
  rw [EStateM.bind, EStateM.bind, h m]
  cases x m with
  | ok a m' => exact hp a m'
  | error e m' => rfl

theorem carries_pure (a : γ) : Carries f g (pure a) (pure (g a)) := fun _ => rfl

theorem carries_throw (e : EvalError) : Carries f g (throw e) (throw e) := fun _ => rfl

theorem carries_get : Carries f (map f) get get := fun _ => rfl

theorem carries_note (step : Step α) : Carries f id (note step) (note (step.map f)) :=
  fun _ => rfl

theorem carries_pushValue (value : α) : Carries f id (pushValue value) (pushValue (f value)) :=
  fun _ => rfl

theorem carries_pushOperator (symbol : Symbol α) :
    Carries f id (pushOperator symbol) (pushOperator (symbol.map f)) := fun _ => rfl

theorem carries_setOperators (operators : List (Symbol α)) :
    Carries f id (setOperators operators) (setOperators (operators.map (Symbol.map f))) :=
  fun _ => rfl

end Actions

/-! ## The steps of a run -/

section Run

variable {f : α → β} {A : Arithmetic α} {B : Arithmetic β}

/-- Whether the last group is closed is not a matter of numbers. -/
theorem isClosedBy_map (m : Machine α) (symbol : Symbol α) :
    (m.map f).isClosedBy (symbol.map f) = m.isClosedBy symbol := by
  cases symbol with
  | parenRight => exact List.isEmpty_map
  | literal _ | named _ | parenLeft | comma | operator _ | function _ => rfl

theorem carries_requireGroup (symbol : Symbol α) :
    Carries f id (requireGroup symbol) (requireGroup (symbol.map f)) := by
  rintro ⟨operators, values, steps⟩
  cases operators with
  | nil => cases symbol <;> rfl
  | cons top waiting => cases top <;> cases symbol <;> rfl

/-- Taking the value at the end is not a matter of numbers. -/
theorem carries_finish : Carries f f finish finish := by
  rintro ⟨operators, values, steps⟩
  cases operators with
  | cons symbol waiting => rfl
  | nil =>
    match values with
    | [] | [_] => rfl
    | first :: second :: rest =>
      have same : (List.map f (first :: second :: rest)).length =
          (first :: second :: rest).length := List.length_map f
      exact congrArg (fun count => EStateM.Result.error (EvalError.leftoverValues count) _) same

variable (h : A.Maps f B)

include h

theorem carries_apply (symbol : Symbol α) :
    Carries f id (apply A symbol) (apply B (symbol.map f)) := by
  intro m
  have image : (symbol.map f).eval B (m.map f).values = _ := Symbol.eval_map h symbol m.values
  unfold apply
  rw [image]
  cases symbol.eval A m.values with
  | error e values => rfl
  | ok value values => cases value <;> rfl

theorem carries_settleFrom (priority : Nat) (waiting : List (Symbol α)) :
    Carries f id (settleFrom A priority waiting)
      (settleFrom B priority (waiting.map (Symbol.map f))) := by
  induction waiting with
  | nil => exact carries_pure ()
  | cons symbol waiting ih =>
    cases symbol with
    | operator op =>
      rw [List.map_cons, Symbol.map, settleFrom, settleFrom]
      split
      · exact (carries_apply h (.operator op)).bind fun _ =>
          (carries_setOperators waiting).bind fun _ => ih
      · exact carries_pure ()
    | literal _ | named _ | parenLeft | parenRight | comma | function _ => exact carries_pure ()

theorem carries_settle (priority : Nat) : Carries f id (settle A priority) (settle B priority) :=
  carries_get.bind fun m => carries_settleFrom h priority m.operators

theorem carries_drainFrom (waiting : List (Symbol α)) :
    Carries f id (drainFrom A waiting) (drainFrom B (waiting.map (Symbol.map f))) := by
  induction waiting with
  | nil => exact carries_throw _
  | cons symbol waiting ih =>
    refine (carries_setOperators waiting).bind fun _ => ?_
    cases symbol with
    | parenLeft => exact carries_pure ()
    | function builtin => exact carries_throw _
    | operator op => exact (carries_apply h (.operator op)).bind fun _ => ih
    | literal _ | named _ | parenRight | comma => exact (carries_note _).bind fun _ => ih

theorem carries_applyFunction : Carries f id (applyFunction A) (applyFunction B) := by
  refine carries_get.bind fun m => ?_
  obtain ⟨operators, values, steps⟩ := m
  cases operators with
  | nil => exact carries_pure ()
  | cons symbol waiting =>
    cases symbol with
    | function builtin =>
      exact (carries_apply h (.function builtin)).bind fun _ => carries_setOperators waiting
    | literal _ | named _ | parenLeft | parenRight | comma | operator _ => exact carries_pure ()

/-- **One symbol** does the same to images. -/
theorem carries_dispatch (symbol : Symbol α) :
    Carries f id (dispatch A symbol) (dispatch B (symbol.map f)) := by
  refine (carries_note _).bind fun _ => (carries_requireGroup symbol).bind fun _ => ?_
  cases symbol with
  | literal value | named value => exact carries_pushValue value
  | parenLeft | function builtin => exact carries_pushOperator _
  | operator op => exact (carries_settle h op.priority).bind fun _ => carries_pushOperator _
  | comma => exact (carries_settle h 0).bind fun _ => carries_pushOperator _
  | parenRight =>
    exact carries_get.bind fun m => (carries_drainFrom h m.operators).bind fun _ =>
      carries_applyFunction h

theorem carries_feed (closed : Bool) (tokens : List (Except EvalError (Symbol α))) :
    Carries f id (feed A closed tokens)
      (feed B closed (tokens.map (Except.map (Symbol.map f)))) := by
  induction tokens generalizing closed with
  | nil => exact carries_pure ()
  | cons token tokens ih =>
    match token, closed with
    | .error e, _ => exact carries_throw e
    | .ok _, true => exact carries_throw _
    | .ok symbol, false =>
      refine (carries_dispatch h symbol).bind fun _ => carries_get.bind fun m => ?_
      rw [isClosedBy_map]
      exact ih (m.isClosedBy symbol)

/-- **A run on images** is the image of the run. -/
theorem carries_run (tokens : List (Except EvalError (Symbol α))) :
    Carries f f (run A tokens) (run B (tokens.map (Except.map (Symbol.map f)))) :=
  (carries_feed h false tokens).bind fun _ => carries_finish

omit h in
/-- **Numbers do not decide**: tokens that are the same but for their numbers have runs that are the
same but for their numbers, under whatever arithmetics. -/
theorem mapResult_run {tokens tokens' : List (Except EvalError (Symbol α))}
    (same : tokens.map (Except.map (Symbol.map forget)) =
      tokens'.map (Except.map (Symbol.map forget))) (A A' : Arithmetic α) :
    mapResult forget forget (run A tokens empty) =
      mapResult forget forget (run A' tokens' empty) := by
  have image := carries_run A.maps_forget tokens empty
  have image' := carries_run A'.maps_forget tokens' empty
  rw [← image, ← image', same]

end Run

end Machine

end Reckoner
