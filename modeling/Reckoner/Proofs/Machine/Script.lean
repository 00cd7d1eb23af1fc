import Reckoner.Proofs.Machine.Simulation

/-!
# The script of a list of tokens

The turns of a list of tokens make its `Script`: the postfix program of all of them, and the groups
that are left at the end or the reason why a token cannot be taken. A script depends on the tokens
alone, and the script of two lists is that of the first, then that of the second
(`Script.ofTokens_append`). `Machine.outcome_run` says that a machine does nothing else: its outcome
is that of the script, where an operand that is missing comes before the reason why the next token
cannot be taken.
-/

namespace Reckoner

variable {α : Type}

/-- What tokens have a machine do. -/
structure Script (α : Type) where
  /-- The symbols that are applied, in order. -/
  program : List (Symbol α)
  /-- The groups that are left open, or why the tokens end early. -/
  groups : Except EvalError (List Frame)

namespace Script

/-- Nothing is applied. -/
def idle (groups : Except EvalError (List Frame)) : Script α := ⟨[], groups⟩

/-- One script behind another. -/
def andThen (first : Script α) (second : List Frame → Script α) : Script α :=
  match first.groups with
  | .ok frames => ⟨first.program ++ (second frames).program, (second frames).groups⟩
  | .error e => ⟨first.program, .error e⟩

/-- The script of one token. Nothing may follow when no group is open. -/
def ofToken : List Frame → Except EvalError (Symbol α) → Script α
  | _, .error e => idle (.error e)
  | [], .ok _ => idle (.error (.unmatchedParenthesis .right))
  | frame :: outer, .ok symbol =>
    match frame.turn outer symbol with
    | .ok (program, frames) => ⟨program, .ok frames⟩
    | .error e => idle (.error e)

/-- The script of a list of tokens. -/
def ofTokens (frames : List Frame) : List (Except EvalError (Symbol α)) → Script α
  | [] => idle (.ok frames)
  | token :: tokens => (ofToken frames token).andThen fun frames => ofTokens frames tokens

theorem eq_of_groups {script : Script α} {left : List Frame} (h : script.groups = .ok left) :
    script = ⟨script.program, .ok left⟩ := by
  rw [← h]

/-! ## One script behind another -/

@[simp] theorem andThen_ok (program : List (Symbol α)) (frames : List Frame)
    (second : List Frame → Script α) :
    andThen ⟨program, .ok frames⟩ second =
      ⟨program ++ (second frames).program, (second frames).groups⟩ := rfl

@[simp] theorem andThen_error (program : List (Symbol α)) (e : EvalError)
    (second : List Frame → Script α) :
    andThen ⟨program, .error e⟩ second = ⟨program, .error e⟩ := rfl

theorem andThen_assoc (first : Script α) (second third : List Frame → Script α) :
    (first.andThen second).andThen third =
      first.andThen fun frames => (second frames).andThen third := by
  obtain ⟨program, groups⟩ := first
  cases groups with
  | error e => rfl
  | ok frames =>
    simp only [andThen_ok]
    cases h : second frames with
    | mk program' groups' =>
      cases groups' with
      | error e => rfl
      | ok frames' => simp

theorem ofTokens_append (frames : List Frame) (first second : List (Except EvalError (Symbol α))) :
    ofTokens frames (first ++ second) =
      (ofTokens frames first).andThen fun frames => ofTokens frames second := by
  induction first generalizing frames with
  | nil => rfl
  | cons token first ih =>
    simp only [List.cons_append, ofTokens, andThen_assoc]
    congr 1
    funext frames
    exact ih frames

theorem ofTokens_append_eq_ok {frames next left : List Frame}
    {tokens tokens' : List (Except EvalError (Symbol α))} {first second : List (Symbol α)}
    (h : ofTokens frames tokens = ⟨first, .ok next⟩)
    (h' : ofTokens next tokens' = ⟨second, .ok left⟩) :
    ofTokens frames (tokens ++ tokens') = ⟨first ++ second, .ok left⟩ := by
  rw [ofTokens_append, h, andThen_ok, h']

theorem ofTokens_cons_of_turn {frame : Frame} {outer next : List Frame} {symbol : Symbol α}
    {program : List (Symbol α)} (h : frame.turn outer symbol = .ok (program, next))
    (tokens : List (Except EvalError (Symbol α))) :
    ofTokens (frame :: outer) (.ok symbol :: tokens) =
      andThen ⟨program, .ok next⟩ fun frames => ofTokens frames tokens := by
  rw [ofTokens]
  simp only [ofToken, h]

theorem ofTokens_cons_eq_of_turn {frame : Frame} {outer next left : List Frame}
    {symbol : Symbol α} {program second : List (Symbol α)}
    (h : frame.turn outer symbol = .ok (program, next))
    {tokens : List (Except EvalError (Symbol α))} (hr : ofTokens next tokens = ⟨second, .ok left⟩) :
    ofTokens (frame :: outer) (.ok symbol :: tokens) = ⟨program ++ second, .ok left⟩ := by
  rw [ofTokens_cons_of_turn h, andThen_ok, hr]

theorem ofTokens_singleton_of_turn {frame : Frame} {outer next : List Frame} {symbol : Symbol α}
    {program : List (Symbol α)} (h : frame.turn outer symbol = .ok (program, next)) :
    ofTokens (frame :: outer) [.ok symbol] = ⟨program, .ok next⟩ := by
  rw [ofTokens_cons_of_turn h]
  simp [ofTokens, idle]

/-! ## Performing a script -/

/-- Runs the program of a script and tells the groups that are left. -/
def perform (A : Arithmetic α) (script : Script α) (values : List α) :
    Except EvalError (List Frame × List α) :=
  (Postfix.run A script.program values).bind fun values =>
    script.groups.map fun frames => (frames, values)

/-- The value of an expression: no group may be open, and exactly one value may be left. -/
def conclude : List Frame × List α → Except EvalError α
  | (_ :: _, _) => .error (.unmatchedParenthesis .left)
  | ([], []) => .error .stackUnderflow
  | ([], [value]) => .ok value
  | ([], values) => .error (.leftoverValues values.length)

/-- The outcome of a script that starts without values. -/
def outcome (A : Arithmetic α) (script : Script α) : Except EvalError α :=
  (script.perform A []).bind conclude

theorem perform_ok {A : Arithmetic α} {program : List (Symbol α)} {values left : List α}
    (h : Postfix.run A program values = .ok left) (frames : List Frame) :
    perform A ⟨program, .ok frames⟩ values = .ok (frames, left) := by
  rw [perform, h]
  rfl

theorem perform_error {A : Arithmetic α} {script : Script α} {values : List α} {e : EvalError}
    (h : Postfix.run A script.program values = .error e) :
    script.perform A values = .error e := by
  rw [perform, h]
  rfl

theorem perform_andThen {A : Arithmetic α} (first : Script α) (second : List Frame → Script α)
    (values : List α) :
    (first.andThen second).perform A values =
      (first.perform A values).bind fun (frames, values) => (second frames).perform A values := by
  obtain ⟨program, groups⟩ := first
  cases groups with
  | error e =>
    simp only [andThen_error, perform]
    cases Postfix.run A program values <;> rfl
  | ok frames =>
    simp only [andThen_ok, perform, Postfix.run_append]
    cases Postfix.run A program values <;> rfl

/-- Scripts that go on alike from where a first one ends can be exchanged. -/
theorem perform_andThen_congr {A : Arithmetic α} {first : Script α}
    {second second' : List Frame → Script α}
    (h : ∀ frames, first.groups = .ok frames → ∀ values,
      (second frames).perform A values = (second' frames).perform A values) (values : List α) :
    (first.andThen second).perform A values = (first.andThen second').perform A values := by
  obtain ⟨program, groups⟩ := first
  cases groups with
  | error e => rfl
  | ok frames =>
    rw [perform_andThen, perform_andThen]
    cases hr : Postfix.run A program values with
    | error e => rw [perform_error hr]; rfl
    | ok left =>
      rw [perform_ok hr]
      exact h frames rfl left

theorem conclude_of_two_le : ∀ {values : List α}, 2 ≤ values.length →
    conclude ([], values) = .error (.leftoverValues values.length)
  | _ :: _ :: _, _ => rfl

/-- With all groups closed the values decide. -/
theorem outcome_of_groups_nil (A : Arithmetic α) (program : List (Symbol α)) :
    outcome A ⟨program, .ok []⟩ =
      (Postfix.run A program []).bind fun values => conclude ([], values) := by
  rw [outcome, perform]
  cases Postfix.run A program [] <;> rfl

/-- With a group open there is no value. -/
theorem outcome_of_groups_cons (A : Arithmetic α) (program : List (Symbol α)) (frame : Frame)
    (outer : List Frame) :
    outcome A ⟨program, .ok (frame :: outer)⟩ =
      (Postfix.run A program []).bind fun _ => .error (.unmatchedParenthesis .left) := by
  rw [outcome, perform]
  cases Postfix.run A program [] <;> rfl

theorem outcome_append (A : Arithmetic α) (frames : List Frame)
    (first second : List (Except EvalError (Symbol α))) :
    (ofTokens frames (first ++ second)).outcome A =
      ((ofTokens frames first).perform A []).bind fun (left, values) =>
        ((ofTokens left second).perform A values).bind conclude := by
  rw [outcome, ofTokens_append, perform_andThen]
  cases (ofTokens frames first).perform A [] <;> rfl

/-- A token that is no symbol is the reason for the outcome, or what is in front of it decides the
outcome, whatever follows. -/
theorem outcome_append_error (A : Arithmetic α) (frames : List Frame)
    (before after : List (Except EvalError (Symbol α))) (e : EvalError) :
    (ofTokens frames (before ++ .error e :: after)).outcome A = .error e ∨
      ∀ rest, (ofTokens frames (before ++ rest)).outcome A =
        (ofTokens frames (before ++ .error e :: after)).outcome A := by
  simp only [outcome_append]
  cases (ofTokens frames before).perform A [] with
  | error e' => exact .inr fun _ => rfl
  | ok performed =>
    obtain ⟨left, values⟩ := performed
    left
    cases left <;> rfl

/-- An expression has a value when its script leaves no group open and only that value. -/
theorem outcome_eq_ok {A : Arithmetic α} {script : Script α} {value : α}
    (h : script.outcome A = .ok value) :
    script.groups = .ok [] ∧ Postfix.run A script.program [] = .ok [value] := by
  obtain ⟨program, groups⟩ := script
  simp only [outcome, perform] at h
  cases hr : Postfix.run A program [] with
  | error e => rw [hr] at h; cases h
  | ok values =>
    cases groups with
    | error e => rw [hr] at h; cases h
    | ok frames =>
      rw [hr] at h
      simp only [Except.bind, Except.map] at h
      match frames, values, h with
      | [], [_], h => cases h; exact ⟨rfl, rfl⟩

/-- An expression without a value wants for values, or has a token that cannot be taken, or leaves a
group open, or leaves more than one value. -/
theorem outcome_eq_error {A : Arithmetic α} {script : Script α} {e : EvalError}
    (h : script.outcome A = .error e) :
    e = .stackUnderflow ∨ script.groups = .error e ∨
      (e = .unmatchedParenthesis .left ∧ ∃ frame outer, script.groups = .ok (frame :: outer)) ∨
      ∃ values, script.groups = .ok [] ∧ Postfix.run A script.program [] = .ok values ∧
        2 ≤ values.length ∧ e = .leftoverValues values.length := by
  obtain ⟨program, groups⟩ := script
  simp only [outcome, perform] at h
  cases hr : Postfix.run A program [] with
  | error e' =>
    rw [hr] at h
    cases h
    exact .inl (Postfix.run_error hr)
  | ok values =>
    rw [hr] at h
    match groups, values, h with
    | .error e', _, h =>
      cases h
      exact .inr (.inl rfl)
    | .ok (frame :: outer), _, h =>
      cases h
      exact .inr (.inr (.inl ⟨rfl, frame, outer, rfl⟩))
    | .ok [], [], h =>
      cases h
      exact .inl rfl
    | .ok [], value :: value' :: rest, h =>
      cases h
      exact .inr (.inr (.inr ⟨value :: value' :: rest, rfl, rfl, by simp, rfl⟩))

/-- With all groups closed only the number of values can be wrong. -/
theorem outcome_of_closed {A : Arithmetic α} {script : Script α} (h : script.groups = .ok []) :
    (∃ value, script.outcome A = .ok value) ∨
      (∃ count, script.outcome A = .error (.leftoverValues count)) ∨
      script.outcome A = .error .stackUnderflow := by
  cases houtcome : script.outcome A with
  | ok value => exact .inl ⟨value, rfl⟩
  | error e =>
    rcases outcome_eq_error houtcome with
      rfl | herror | ⟨-, frame, outer, hopen⟩ | ⟨values, -, -, -, rfl⟩
    · exact .inr (.inr rfl)
    · rw [h] at herror
      cases herror
    · rw [h] at hopen
      cases hopen
    · exact .inr (.inl ⟨_, rfl⟩)

/-! ## Tokens that can be taken -/

/-- Tokens that can all be taken are symbols, each taken while a group is open. -/
theorem ofTokens_cons_eq_ok {frames left : List Frame} {token : Except EvalError (Symbol α)}
    {tokens : List (Except EvalError (Symbol α))} {program : List (Symbol α)}
    (h : ofTokens frames (token :: tokens) = ⟨program, .ok left⟩) :
    ∃ frame outer symbol first next second, frames = frame :: outer ∧ token = .ok symbol ∧
      frame.turn outer symbol = .ok (first, next) ∧
      ofTokens next tokens = ⟨second, .ok left⟩ ∧ program = first ++ second := by
  rw [ofTokens] at h
  match frames, token, h with
  | [], .ok _, h => cases h
  | frames, .error e, h => cases frames <;> cases h
  | frame :: outer, .ok symbol, h =>
    cases ht : frame.turn outer symbol with
    | error e =>
      simp only [ofToken, ht] at h
      cases h
    | ok turned =>
      obtain ⟨first, next⟩ := turned
      simp only [ofToken, ht, andThen_ok, Script.mk.injEq] at h
      exact ⟨frame, outer, symbol, first, next, _, rfl, rfl, ht,
        by rw [← h.2], h.1.symm⟩

/-- A script that goes through goes through its parts. -/
theorem ofTokens_append_inv {frames left : List Frame}
    {tokens tokens' : List (Except EvalError (Symbol α))} {program : List (Symbol α)}
    (h : ofTokens frames (tokens ++ tokens') = ⟨program, .ok left⟩) :
    ∃ first second middle, ofTokens frames tokens = ⟨first, .ok middle⟩ ∧
      ofTokens middle tokens' = ⟨second, .ok left⟩ ∧ program = first ++ second := by
  rw [ofTokens_append] at h
  cases hfirst : ofTokens frames tokens with
  | mk first groups =>
    rw [hfirst] at h
    cases groups with
    | error e => cases h
    | ok middle =>
      cases hsecond : ofTokens middle tokens' with
      | mk second groups' =>
        simp only [andThen_ok, hsecond, Script.mk.injEq] at h
        obtain ⟨rfl, rfl⟩ := h
        exact ⟨first, second, middle, rfl, hsecond, rfl⟩

/-- Before the first token that cannot be taken, all are. -/
theorem ofTokens_eq_error {frames : List Frame} {tokens : List (Except EvalError (Symbol α))}
    {e : EvalError} (h : (ofTokens frames tokens).groups = .error e) :
    ∃ before token after program left, tokens = before ++ token :: after ∧
      ofTokens frames before = ⟨program, .ok left⟩ ∧ (ofToken left token).groups = .error e := by
  induction tokens generalizing frames with
  | nil => cases h
  | cons token tokens ih =>
    rw [ofTokens] at h
    cases hfirst : ofToken frames token with
    | mk first groups =>
      rw [hfirst] at h
      cases groups with
      | error e' =>
        cases h
        exact ⟨[], token, tokens, [], frames, rfl, rfl, by rw [hfirst]⟩
      | ok next =>
        obtain ⟨before, token', after, program, left, rfl, hbefore, herror⟩ := ih h
        refine ⟨token :: before, token', after, first ++ program, left, rfl, ?_, herror⟩
        rw [ofTokens, hfirst, andThen_ok, hbefore]

/-- A token that cannot be taken is no symbol, or no group is open, or it does not open the
arguments of the function before it. -/
theorem ofToken_eq_error {frames : List Frame} {token : Except EvalError (Symbol α)} {e : EvalError}
    (h : (ofToken frames token).groups = .error e) :
    token = .error e ∨
      (frames = [] ∧ e = .unmatchedParenthesis .right) ∨
      ∃ frame outer f symbol, frames = frame :: outer ∧ frame.function = some f ∧
        token = .ok symbol ∧ symbol.opens = false ∧ e = .danglingFunction f := by
  match frames, token, h with
  | frames, .error e', h =>
    cases frames <;> cases h <;> exact .inl rfl
  | [], .ok symbol, h =>
    cases h
    exact .inr (.inl ⟨rfl, rfl⟩)
  | frame :: outer, .ok symbol, h =>
    cases ht : frame.turn outer symbol with
    | ok turned =>
      simp only [ofToken, ht] at h
      cases h
    | error e' =>
      simp only [ofToken, ht] at h
      cases h
      obtain ⟨f, hf, hs, rfl⟩ := Frame.turn_error ht
      exact .inr (.inr ⟨frame, outer, f, symbol, rfl, hf, rfl, hs, rfl⟩)

/-- Tokens that can all be taken are symbols, and the groups stay as many as are open. -/
theorem length_of_ofTokens {frames left : List Frame}
    {tokens : List (Except EvalError (Symbol α))} {program : List (Symbol α)}
    (h : ofTokens frames tokens = ⟨program, .ok left⟩) :
    ∃ symbols : List (Symbol α), tokens = symbols.map .ok ∧
      left.length + symbols.countP Symbol.closes = frames.length + symbols.countP Symbol.opens := by
  induction tokens generalizing frames program with
  | nil =>
    cases h
    exact ⟨[], rfl, rfl⟩
  | cons token tokens ih =>
    obtain ⟨frame, outer, symbol, first, next, second, rfl, rfl, ht, hs, rfl⟩ :=
      ofTokens_cons_eq_ok h
    obtain ⟨symbols, rfl, hlen⟩ := ih hs
    refine ⟨symbol :: symbols, rfl, ?_⟩
    have turned := Frame.length_of_turn ht
    rw [countP_cons_toNat, countP_cons_toNat, List.length_cons]
    omega

/-- The last parenthesis of tokens that can all be taken settles what waits in the last group. -/
theorem ofTokens_closed_iff {frames : List Frame} {tokens : List (Except EvalError (Symbol α))}
    {program : List (Symbol α)} :
    ofTokens frames (tokens ++ [.ok .parenRight]) = ⟨program, .ok []⟩ ↔
      ∃ (symbols first : List (Symbol α)) (frame : Frame), tokens = symbols.map .ok ∧
        ofTokens frames (symbols.map .ok) = ⟨first, .ok [frame]⟩ ∧ frame.function = none ∧
        program = first ++ frame.pending.map .operator := by
  constructor
  · intro h
    obtain ⟨first, last, middle, hfirst, hlast, rfl⟩ := ofTokens_append_inv h
    obtain ⟨symbols, rfl, -⟩ := length_of_ofTokens hfirst
    obtain ⟨frame, outer, _, turned, next, _, rfl, ⟨⟩, ht, ⟨⟩, rfl⟩ := ofTokens_cons_eq_ok hlast
    obtain ⟨htake, hf⟩ := Frame.turn_ok ht
    obtain ⟨rfl, houter⟩ := Prod.mk.inj htake
    obtain rfl : outer = [] := by
      cases outer with
      | nil => rfl
      | cons frame' outer => cases houter
    exact ⟨symbols, first, frame, rfl, hfirst, hf.resolve_left (by simp [Symbol.opens]),
      by simp [Frame.callee]⟩
  · rintro ⟨symbols, first, frame, rfl, hfirst, hf, rfl⟩
    have turned : frame.turn [] (.parenRight : Symbol α) =
        .ok (frame.pending.map .operator, []) := by
      rw [Frame.turn_parenRight hf, Frame.callee, List.append_nil]
      rfl
    exact ofTokens_append_eq_ok hfirst (ofTokens_singleton_of_turn turned)

/-- Before tokens that can be taken a group is open. -/
theorem countP_lt_of_ofTokens {frames left : List Frame} {symbols : List (Symbol α)}
    {tokens : List (Except EvalError (Symbol α))} {program : List (Symbol α)}
    (h : ofTokens frames (symbols.map .ok ++ tokens) = ⟨program, .ok left⟩) (hne : tokens ≠ []) :
    symbols.countP Symbol.closes < frames.length + symbols.countP Symbol.opens := by
  obtain ⟨first, second, middle, hfirst, hsecond, -⟩ := ofTokens_append_inv h
  have hopen : 0 < middle.length := by
    obtain ⟨token, tokens, rfl⟩ := List.exists_cons_of_ne_nil hne
    obtain ⟨frame, outer, _, _, _, _, rfl, -⟩ := ofTokens_cons_eq_ok hsecond
    exact Nat.succ_pos _
  obtain ⟨symbols', heq, hlen⟩ := length_of_ofTokens hfirst
  obtain rfl : symbols = symbols' := (List.map_inj_right fun _ _ => Except.ok.inj).1 heq
  omega

/-- A function waits on top only after its own token. -/
theorem function_of_ofTokens {frames left : List Frame}
    {tokens : List (Except EvalError (Symbol α))} {symbol : Symbol α}
    (h : (ofTokens frames (tokens ++ [.ok symbol])).groups = .ok left) :
    ∀ frame ∈ left.head?, frame.function = symbol.function? := by
  cases hscript : ofTokens frames (tokens ++ [.ok symbol]) with
  | mk program groups =>
    rw [hscript] at h
    cases h
    obtain ⟨first, second, middle, -, hlast, -⟩ := ofTokens_append_inv hscript
    obtain ⟨frame, outer, symbol', _, next, _, rfl, hsymbol, ht, hnext, -⟩ :=
      ofTokens_cons_eq_ok hlast
    cases hsymbol
    cases hnext
    exact Frame.function_of_turn ht

/-- **Why tokens end early** behind an opening parenthesis: one of them is no symbol, or it follows
the end of the last group, or it follows a function and does not open its arguments. -/
theorem ofTokens_opened_eq_error {tokens : List (Except EvalError (Symbol α))} {e : EvalError}
    (h : (ofTokens [Frame.opened] tokens).groups = .error e) :
    .error e ∈ tokens ∨
      (e = .unmatchedParenthesis .right ∧ ∃ (symbols : List (Symbol α)) (rest : List _),
        tokens = symbols.map .ok ++ rest ∧ rest ≠ [] ∧
          symbols.countP Symbol.closes = symbols.countP Symbol.opens + 1) ∨
      ∃ f before symbol after, e = .danglingFunction f ∧ symbol.opens = false ∧
        tokens = before ++ .ok (.function f) :: .ok symbol :: after := by
  obtain ⟨before, token, after, program, left, rfl, hbefore, htoken⟩ := ofTokens_eq_error h
  rcases ofToken_eq_error htoken with
    rfl | ⟨rfl, rfl⟩ | ⟨frame, outer, f, symbol, rfl, hf, rfl, hs, rfl⟩
  · exact .inl (List.mem_append_right _ List.mem_cons_self)
  · obtain ⟨symbols, rfl, hlen⟩ := length_of_ofTokens hbefore
    simp only [List.length_nil, List.length_singleton] at hlen
    exact .inr (.inl ⟨rfl, symbols, token :: after, rfl, List.cons_ne_nil _ _, by omega⟩)
  · obtain ⟨symbols, rfl, -⟩ := length_of_ofTokens hbefore
    rcases List.eq_nil_or_concat symbols with rfl | ⟨front, last, rfl⟩
    · cases hbefore
      cases hf
    · rw [List.concat_eq_append, List.map_append, List.map_singleton] at hbefore ⊢
      have top := function_of_ofTokens (congrArg groups hbefore) frame rfl
      rw [hf] at top
      obtain rfl := Symbol.eq_function top.symm
      exact .inr (.inr ⟨f, front.map .ok, symbol, after, rfl, hs, by simp⟩)

/-! ## Groups below -/

/-- With no group open no token can be taken. -/
theorem eq_nil_of_ofTokens_nil {left : List Frame} {tokens : List (Except EvalError (Symbol α))}
    {program : List (Symbol α)} (h : ofTokens [] tokens = ⟨program, .ok left⟩) : left = [] := by
  cases tokens with
  | nil =>
    cases h
    rfl
  | cons token tokens =>
    obtain ⟨_, _, _, _, _, _, hnil, -⟩ := ofTokens_cons_eq_ok h
    cases hnil

/-- **What tokens do does not depend on the groups below**, as long as they leave one of their own
open, or no function waits on top of the groups below for them to close. -/
theorem ofTokens_above {frames left : List Frame} {tokens : List (Except EvalError (Symbol α))}
    {program : List (Symbol α)} (h : ofTokens frames tokens = ⟨program, .ok left⟩)
    (hne : frames ≠ []) {below : List Frame}
    (hb : left = [] → ∀ frame ∈ below.head?, frame.function = none) :
    ofTokens (frames ++ below) tokens = ⟨program, .ok (left ++ below)⟩ := by
  induction tokens generalizing frames program with
  | nil =>
    cases h
    rfl
  | cons token tokens ih =>
    obtain ⟨frame, outer, symbol, first, next, second, rfl, rfl, ht, hs, rfl⟩ :=
      ofTokens_cons_eq_ok h
    have step : frame.turn (outer ++ below) symbol = .ok (first, next ++ below) :=
      Frame.turn_above ht fun hnil => hb (eq_nil_of_ofTokens_nil (hnil ▸ hs))
    have rest : ofTokens (next ++ below) tokens = ⟨second, .ok (left ++ below)⟩ := by
      cases tokens with
      | nil =>
        cases hs
        rfl
      | cons token' tokens =>
        refine ih hs ?_
        rintro rfl
        obtain ⟨_, _, _, _, _, _, hn, -⟩ := ofTokens_cons_eq_ok hs
        cases hn
    rw [List.cons_append, ofTokens]
    simp only [ofToken, step, andThen_ok, rest]

end Script

/-! ## The machine performs the script -/

namespace Machine

variable {A : Arithmetic α}

/-- The machine regards its last group as closed when no group is open. -/
theorem isClosedBy_eq {frame : Frame} {outer frames : List Frame} {symbol : Symbol α}
    {program : List (Symbol α)} (h : frame.turn outer symbol = .ok (program, frames))
    {m : Machine α} (hm : m.operators = Frame.stack frames) :
    m.isClosedBy symbol = frames.isEmpty := by
  cases frames with
  | nil =>
    rw [Frame.turn_ne_nil h]
    simp [isClosedBy, hm]
  | cons frame' outer' =>
    have : m.operators ≠ [] := by
      rw [hm]
      exact fun h => by cases Frame.stack_eq_nil.1 h
    cases symbol <;> simp [isClosedBy, this]

/-- **Feeding tokens to a machine performs their script.** -/
theorem effect_feed {frames : List Frame} {m : Machine α} (hm : m.operators = Frame.stack frames)
    (tokens : List (Except EvalError (Symbol α))) :
    effect (feed A frames.isEmpty tokens m) =
      ((Script.ofTokens frames tokens).perform A m.values).map fun (frames, values) =>
        (Frame.stack frames, values) := by
  induction tokens generalizing frames m with
  | nil => exact congrArg (fun waiting => Except.ok (waiting, m.values)) hm
  | cons token tokens ih =>
    rw [Script.ofTokens, Script.perform_andThen]
    match frames, token with
    | frames, .error e => cases frames <;> rfl
    | [], .ok symbol => rfl
    | frame :: outer, .ok symbol =>
      change effect ((dispatch A symbol >>= fun _ => get >>= fun m' =>
        feed A (m'.isClosedBy symbol) tokens) m) = _
      have turned := effect_dispatch (A := A) hm symbol
      cases ht : frame.turn outer symbol with
      | error e =>
        rw [ht] at turned
        rw [effect_bind (k := fun _ => .error e) (fun m' h => by rw [turned] at h; cases h), turned]
        simp only [Script.ofToken, ht]
        rfl
      | ok next =>
        obtain ⟨program, frames⟩ := next
        rw [ht] at turned
        rw [effect_bind (k := fun (_, values) =>
          ((Script.ofTokens frames tokens).perform A values).map fun (frames, values) =>
            (Frame.stack frames, values)), turned]
        · simp only [Script.ofToken, ht, Script.perform, Except.bind]
          cases Postfix.run A program m.values <;> rfl
        · intro m' h
          have hm' : m'.operators = Frame.stack frames := by
            rw [turned] at h
            simp only [Except.bind] at h
            cases hr : Postfix.run A program m.values with
            | error e => rw [hr] at h; cases h
            | ok values =>
              rw [hr] at h
              simp only [Except.map, Except.ok.injEq, Prod.mk.injEq] at h
              exact h.1.symm
          change effect (feed A (m'.isClosedBy symbol) tokens m') = _
          rw [isClosedBy_eq ht hm']
          exact ih hm'

/-- The outcome of an action. -/
def outcome {β : Type} : EStateM.Result EvalError (Machine α) β → Except EvalError β
  | .ok value _ => .ok value
  | .error e _ => .error e

theorem outcome_finish {frames : List Frame} {m : Machine α}
    (hm : m.operators = Frame.stack frames) :
    outcome (finish m) = Script.conclude (frames, m.values) := by
  unfold finish
  cases frames with
  | nil =>
    simp only [hm, Frame.stack_nil, List.isEmpty_nil, if_true]
    rcases m.values with _ | ⟨value, _ | ⟨value', rest⟩⟩ <;> rfl
  | cons frame outer =>
    have : m.operators ≠ [] := by
      rw [hm]
      exact fun h => by cases Frame.stack_eq_nil.1 h
    rw [if_neg (by simpa using this)]
    rfl

theorem outcome_feed_finish {frames : List Frame} {m : Machine α}
    (hm : m.operators = Frame.stack frames) (tokens : List (Except EvalError (Symbol α))) :
    outcome ((feed A frames.isEmpty tokens >>= fun _ => finish) m) =
      ((Script.ofTokens frames tokens).perform A m.values).bind Script.conclude := by
  have fed := effect_feed (A := A) hm tokens
  change outcome (EStateM.bind _ _ _) = _
  rw [EStateM.bind]
  cases hf : feed A frames.isEmpty tokens m with
  | error e m' =>
    rw [hf] at fed
    cases hp : (Script.ofTokens frames tokens).perform A m.values with
    | error e' =>
      rw [hp] at fed
      cases fed
      rfl
    | ok left => rw [hp] at fed; cases fed
  | ok u m' =>
    rw [hf] at fed
    cases hp : (Script.ofTokens frames tokens).perform A m.values with
    | error e' => rw [hp] at fed; cases fed
    | ok left =>
      rw [hp] at fed
      simp only [effect, Except.map, Except.ok.injEq, Prod.mk.injEq] at fed
      exact (outcome_finish fed.1).trans
        (congrArg (fun values => Script.conclude (left.1, values)) fed.2)

/-- **The outcome of a run is that of its script**, once an opening parenthesis comes first. -/
theorem outcome_run (tokens : List (Except EvalError (Symbol α))) :
    outcome (run A (.ok .parenLeft :: tokens) empty) =
      (Script.ofTokens [Frame.opened] tokens).outcome A := by
  have started : (⟨[.parenLeft], [], [.dispatched .parenLeft]⟩ : Machine α).operators =
      Frame.stack [Frame.opened] := rfl
  exact outcome_feed_finish started tokens

end Machine

end Reckoner
