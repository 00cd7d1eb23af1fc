import Reckoner.Proofs.OperatorStack
import Reckoner.Proofs.Parentheses

/-!
# How many values an expression leaves

A number adds one value, and an operator or a function of two operands makes one out of two. This is
what a symbol is `worth`, and no step of the machine changes the account: between two tokens the
values are as many as the symbols before are worth, less those that still wait
(`Machine.Reached.length_values`). At the end nothing waits, so the kinds of tokens alone say how
many values are left (`SymbolTable.Built.evaluate_accounts`).

The account is kept turn by turn on the groups that wait (`Frame.worth_of_turn`); for the values of
a program it is kept symbol by symbol (`Postfix.length_of_run`).
-/

namespace Reckoner

variable {α : Type} {A : Arithmetic α}

/-! ## What symbols are worth -/

namespace Symbol

/-- Whether a symbol is a number, written out or named. -/
def isNumber : Symbol α → Bool
  | literal _ | named _ => true
  | _ => false

/-- Whether a symbol is an operator. -/
def isOperator : Symbol α → Bool
  | operator _ => true
  | _ => false

/-- Whether a symbol is a function of two operands. -/
def isBinaryBuiltin : Symbol α → Bool
  | function (.binary _) => true
  | _ => false

/-- By how many values a symbol makes the stack higher. -/
def worth : Symbol α → Int
  | literal _ | named _ => 1
  | operator _ | function (.binary _) => -1
  | parenLeft | parenRight | comma | function (.unary _) => 0

theorem length_of_act {symbol : Symbol α} {values rest : List α}
    (h : symbol.act A values = .ok rest) : (rest.length : Int) = values.length + symbol.worth := by
  match symbol, values, h with
  | literal _, _, h | named _, _, h => cases h; rfl
  | parenLeft, _, h | parenRight, _, h | comma, _, h =>
    cases h
    exact (Int.add_zero _).symm
  | function (.unary _), [], h => cases h
  | function (.unary _), _ :: _, h =>
    cases h
    exact (Int.add_zero _).symm
  | operator _, [], h | operator _, [_], h => cases h
  | function (.binary _), [], h | function (.binary _), [_], h => cases h
  | operator _, _ :: _ :: _, h | function (.binary _), _ :: _ :: _, h =>
    cases h
    simp only [List.length_cons, worth]
    omega

end Symbol

/-- What symbols are worth together. -/
def worth : List (Symbol α) → Int
  | [] => 0
  | symbol :: symbols => symbol.worth + worth symbols

@[simp] theorem worth_nil : worth ([] : List (Symbol α)) = 0 := rfl

@[simp] theorem worth_cons (symbol : Symbol α) (symbols : List (Symbol α)) :
    worth (symbol :: symbols) = symbol.worth + worth symbols := rfl

@[simp] theorem worth_append (first second : List (Symbol α)) :
    worth (first ++ second) = worth first + worth second := by
  induction first with
  | nil => exact (Int.zero_add _).symm
  | cons symbol first ih => rw [List.cons_append, worth_cons, worth_cons, ih, Int.add_assoc]

theorem worth_eq (symbols : List (Symbol α)) :
    worth symbols = symbols.countP Symbol.isNumber - symbols.countP Symbol.isOperator -
      symbols.countP Symbol.isBinaryBuiltin := by
  induction symbols with
  | nil => rfl
  | cons symbol symbols ih =>
    rw [worth_cons, ih]
    match symbol with
    | .literal _ | .named _ | .parenLeft | .parenRight | .comma | .operator _
    | .function (.unary _) | .function (.binary _) =>
      simp only [List.countP_cons, Symbol.isNumber, Symbol.isOperator, Symbol.isBinaryBuiltin,
        Symbol.worth, if_true, if_false, Bool.false_eq_true]
      omega

/-- **A program changes the number of values** by what its symbols are worth. -/
theorem Postfix.length_of_run {program : List (Symbol α)} {values rest : List α}
    (h : run A program values = .ok rest) :
    (rest.length : Int) = values.length + worth program := by
  induction program generalizing values with
  | nil =>
    cases h
    simp
  | cons symbol program ih =>
    rw [run_cons] at h
    cases hs : symbol.act A values with
    | error e =>
      rw [hs] at h
      cases h
    | ok next =>
      rw [hs] at h
      rw [ih h, Symbol.length_of_act hs, worth_cons, Int.add_assoc]

/-! ## Turns keep the account -/

namespace Frame

theorem worth_replicate_comma (n : Nat) :
    worth (List.replicate n (.comma : Symbol α)) = 0 := by
  induction n with
  | zero => rfl
  | succ n ih => rw [List.replicate_succ, worth_cons, ih]; rfl

/-- The end of a group takes only the function in front of it from the groups around. -/
theorem worth_callee (outer : List Frame) :
    worth (callee outer : List (Symbol α)) +
        worth (stack (outer.modifyHead answered) : List (Symbol α)) =
      worth (stack outer : List (Symbol α)) := by
  cases outer with
  | nil => rfl
  | cons frame outer =>
    rw [List.modifyHead_cons]
    cases hf : frame.function with
    | none =>
      rw [answered_eq_self hf]
      simp [callee, hf]
    | some f => simp [callee, hf, stack_cons_of_function hf]

/-- **A turn keeps the account**: what it runs and what waits behind it are worth what waited before
and the symbol. -/
theorem worth_of_turn {frame : Frame} {outer frames : List Frame} {symbol : Symbol α}
    {program : List (Symbol α)} (h : frame.turn outer symbol = .ok (program, frames)) :
    worth program + worth (stack frames : List (Symbol α)) =
      worth (stack (frame :: outer) : List (Symbol α)) + symbol.worth := by
  obtain ⟨ht, hf⟩ := turn_ok h
  cases hs : symbol.opens with
  | true =>
    obtain rfl := Symbol.eq_parenLeft hs
    cases ht
    rw [stack_cons opened]
    simp [opened, pending, Symbol.worth]
  | false =>
    have hn : frame.function = none := hf.resolve_left (by simp [hs])
    cases symbol with
    | parenLeft => cases hs
    | literal value | named value =>
      cases ht
      simp only [worth_cons, worth_nil]
      omega
    | function f =>
      cases ht
      rw [stack_call hn, worth_cons, worth_nil]
      omega
    | operator op =>
      cases ht
      rw [stack_await hn, stack_eq_due hn outer op]
      simp only [worth_cons, worth_append]
      have hop : (Symbol.operator op : Symbol α).worth = -1 := rfl
      omega
    | comma =>
      cases ht
      rw [stack_advance hn, stack_cons, hn]
      simp [Symbol.worth]
    | parenRight =>
      cases ht
      have hcallee := worth_callee (α := α) outer
      rw [stack_cons, hn]
      simp only [worth_append, worth_cons, worth_replicate_comma, Option.toList_none,
        List.map_nil, worth_nil]
      have hmark : (Symbol.parenLeft : Symbol α).worth = 0 := rfl
      have hmark' : (Symbol.parenRight : Symbol α).worth = 0 := rfl
      omega

end Frame

/-- Tokens that can all be taken keep the account. -/
theorem Script.worth_of_ofTokens {frames left : List Frame} {symbols program : List (Symbol α)}
    (h : ofTokens frames (symbols.map .ok) = ⟨program, .ok left⟩) :
    worth program + worth (Frame.stack left : List (Symbol α)) =
      worth (Frame.stack frames : List (Symbol α)) + worth symbols := by
  induction symbols generalizing frames program with
  | nil =>
    cases h
    simp
  | cons symbol symbols ih =>
    obtain ⟨frame, outer, _, first, next, second, rfl, ⟨⟩, ht, hs, rfl⟩ := ofTokens_cons_eq_ok h
    have turned := Frame.worth_of_turn ht
    have later := ih hs
    rw [worth_append, worth_cons]
    omega

/-! ## A run keeps the account -/

namespace Machine

/-- What one symbol does to the account while a group is open. -/
theorem length_values_of_dispatch {symbol : Symbol α} {m m' : Machine α} {frame : Frame}
    {outer : List Frame} (hm : m.operators = Frame.stack (frame :: outer))
    (h : dispatch A symbol m = .ok () m') :
    (m'.values.length : Int) + worth m'.operators =
      m.values.length + worth m.operators + symbol.worth := by
  obtain ⟨program, frames, ht, hm', hr⟩ := dispatch_ok hm h
  have turned := Frame.worth_of_turn ht
  have height := Postfix.length_of_run hr
  rw [hm, hm']
  omega

/-- **Between two tokens** the values are as many as the symbols before are worth, less those that
wait. -/
theorem Reached.length_values {tokens rest : List (Except EvalError (Symbol α))}
    {before : List (Symbol α)} {closed : Bool} {m : Machine α}
    (h : Reached A (.ok .parenLeft :: tokens) before rest closed m) :
    (m.values.length : Int) + worth m.operators = worth before := by
  induction h with
  | start => rfl
  | @next before symbol rest m m' reached dispatched ih =>
    rw [worth_append, worth_cons, worth_nil, Int.add_zero, ← ih]
    obtain ⟨frames, hold⟩ := reached.holds
    cases frames with
    | cons frame outer => exact length_values_of_dispatch hold.operators dispatched
    | nil =>
      obtain ⟨-, rfl⟩ := hold.first reached
      have opened := effect_dispatch_parenLeft (A := A) hold.operators
      rw [dispatched] at opened
      simp only [effect, Except.ok.injEq, Prod.mk.injEq] at opened
      rw [opened.1, opened.2, hold.operators]
      rfl

end Machine

/-! ## The account of an expression -/

namespace SymbolTable

variable {table : SymbolTable}

/-- The symbols among tokens. -/
def symbolsOf (tokens : List (Except EvalError (Symbol α))) : List (Symbol α) :=
  tokens.filterMap Except.toOption

theorem symbolsOf_map (symbols : List (Symbol α)) : symbolsOf (symbols.map .ok) = symbols := by
  rw [symbolsOf, List.filterMap_map]
  exact List.filterMap_some

/-- Every function is followed by an opening parenthesis. -/
def CallsOpen (tokens : List (Except EvalError (Symbol α))) : Prop :=
  ∀ i f, tokens[i]? = some (.ok (.function f)) → tokens[i + 1]? = some (.ok .parenLeft)

theorem CallsOpen.next {before after : List (Except EvalError (Symbol α))} {f : Builtin}
    {symbol : Symbol α} (h : CallsOpen (before ++ .ok (.function f) :: .ok symbol :: after)) :
    symbol = .parenLeft := by
  have next := h before.length f
  simpa using next

namespace Built

variable (built : table.Built) {A : Arithmetic Float} {expression source : String}

include built

/-- The values that are left when all groups are closed are what the symbols are worth. -/
theorem length_of_closed (hs : prepare expression = .ok source)
    (hgroups : (table.script expression).groups = .ok [])
    {values : List Float} (hr : Postfix.run A (table.script expression).program [] = .ok values) :
    (symbolsOf (table.tokens source)).countP Symbol.isNumber =
      values.length + (symbolsOf (table.tokens source)).countP Symbol.isOperator +
        (symbolsOf (table.tokens source)).countP Symbol.isBinaryBuiltin := by
  have hscript : Script.ofTokens [Frame.opened]
      (table.scan (kept expression) ++ [.ok .parenRight]) =
        ⟨(table.script expression).program, .ok []⟩ := Script.eq_of_groups hgroups
  obtain ⟨symbols, htokens, -⟩ := Script.length_of_ofTokens hscript
  have hsymbols : symbolsOf (table.tokens source) = .parenLeft :: symbols := by
    rw [built.tokens_of_prepare hs, htokens, ← List.map_cons (f := Except.ok), symbolsOf_map]
  rw [htokens] at hscript
  have account := Script.worth_of_ofTokens hscript
  have height := Postfix.length_of_run hr
  have opened : worth (Frame.stack [Frame.opened] : List (Symbol Float)) = 0 := rfl
  have whole : worth (.parenLeft :: symbols) = worth symbols := by
    rw [worth_cons]
    exact Int.zero_add _
  have kinds := worth_eq (.parenLeft :: symbols)
  rw [hsymbols]
  simp only [Frame.stack_nil, worth_nil, List.length_nil] at account height
  omega

/-- Nothing is wrong with the structure of a balanced expression whose words are known and whose
functions have arguments. -/
theorem groups_of_balanced (hs : prepare expression = .ok source)
    (hknown : ∀ token ∈ table.tokens source, ∃ symbol, token = .ok symbol)
    (hbalanced : Balanced expression.toList) (hcalls : CallsOpen (table.tokens source)) :
    (table.script expression).groups = .ok [] := by
  have htokens := built.tokens_of_prepare hs
  cases hgroups : (table.script expression).groups with
  | ok left =>
    have total := built.length_add_count hgroups
    have balanced := hbalanced.total
    have hleft : left.length = 0 := by omega
    rw [List.length_eq_zero_iff.1 hleft]
  | error e =>
    exfalso
    rcases Script.ofTokens_opened_eq_error hgroups with
      hmem | ⟨rfl, -⟩ | ⟨f, before, symbol, after, rfl, hopens, heq⟩
    · obtain ⟨symbol, heq⟩ := hknown (.error e) (by
        rw [htokens]
        exact List.mem_cons_of_mem _ hmem)
      cases heq
    · rcases built.groups_error hgroups with otherwise | ⟨-, overclosed⟩
      · cases otherwise
      · exact hbalanced.not_overclosed overclosed
    · rw [htokens, heq, ← List.cons_append] at hcalls
      rw [hcalls.next] at hopens
      cases hopens

/-- **The kinds of tokens say how many values are left**: as many as there are numbers, less one for
each operator and each function of two operands. Where nothing else is wrong, too few numbers are a
stack underflow. Between any two tokens the account holds. -/
theorem evaluate_accounts (hs : prepare expression = .ok source) :
    let symbols := symbolsOf (table.tokens source)
    let numbers := symbols.countP Symbol.isNumber
    let operators := symbols.countP Symbol.isOperator
    let binaries := symbols.countP Symbol.isBinaryBuiltin
    (∀ value, table.evaluate A expression = .ok value → numbers = 1 + operators + binaries) ∧
    (∀ count, table.evaluate A expression = .error (.leftoverValues count) →
      numbers = count + operators + binaries ∧ 2 ≤ count) ∧
    ((∀ token ∈ table.tokens source, ∃ symbol, token = .ok symbol) →
      Balanced expression.toList → CallsOpen (table.tokens source) →
      ((∃ value, table.evaluate A expression = .ok value) ∨
        (∃ count, table.evaluate A expression = .error (.leftoverValues count)) ∨
        table.evaluate A expression = .error .stackUnderflow) ∧
      (numbers ≤ operators + binaries →
        table.evaluate A expression = .error .stackUnderflow)) ∧
    ∀ {before rest closed m}, Machine.Reached A (table.tokens source) before rest closed m →
      (m.values.length : Int) = worth before - worth m.operators := by
  intro symbols numbers operators binaries
  have hvalue : ∀ value, table.evaluate A expression = .ok value →
      numbers = 1 + operators + binaries := by
    intro value h
    rw [built.evaluate_of_prepare hs] at h
    obtain ⟨hgroups, hr⟩ := Script.outcome_eq_ok h
    exact built.length_of_closed hs hgroups hr
  have hleftover : ∀ count, table.evaluate A expression = .error (.leftoverValues count) →
      numbers = count + operators + binaries ∧ 2 ≤ count := by
    intro count h
    rw [built.evaluate_of_prepare hs] at h
    rcases Script.outcome_eq_error h with
      h | hgroups | ⟨h, -⟩ | ⟨values, hgroups, hr, htwo, h⟩
    · cases h
    · rcases built.groups_error hgroups with otherwise | ⟨h, -⟩
      · cases otherwise
      · cases h
    · cases h
    · cases h
      exact ⟨built.length_of_closed hs hgroups hr, htwo⟩
  refine ⟨hvalue, hleftover, fun hknown hbalanced hcalls => ?_, fun {before rest closed m} h => ?_⟩
  · have hgroups := built.groups_of_balanced hs hknown hbalanced hcalls
    have hcases := Script.outcome_of_closed (A := A) hgroups
    rw [← built.evaluate_of_prepare hs] at hcases
    refine ⟨hcases, fun hfew => ?_⟩
    rcases hcases with ⟨value, h⟩ | ⟨count, h⟩ | h
    · have := hvalue value h
      omega
    · have := hleftover count h
      omega
    · exact h
  · rw [built.tokens_of_prepare hs] at h
    have account := h.length_values
    omega

end Built

/-- Of `max(1,2,3)*5` two values are left, and `abs(2-)` wants for one. -/
theorem evaluate_accounts_calls :
    (let symbols := symbolsOf (SymbolTable.standard.tokens "(max(1,2,3)*5)");
      symbols.countP Symbol.isNumber =
        2 + symbols.countP Symbol.isOperator + symbols.countP Symbol.isBinaryBuiltin) ∧
      SymbolTable.standard.evaluate .ieee "abs(2-)" = .error .stackUnderflow := by
  have leftover : SymbolTable.standard.evaluate .ieee "max(1,2,3)*5" =
      .error (.leftoverValues 2) := by
    decide +kernel
  have tokens : standard.tokens "(abs(2-))" = [.ok .parenLeft, .ok (.function (.unary .abs)),
      .ok .parenLeft, .ok (.literal 2), .ok (.operator .sub), .ok .parenRight,
      .ok .parenRight] := by
    decide +kernel
  have known : ∀ token ∈ standard.tokens "(abs(2-))", ∃ symbol, token = .ok symbol := by
    rw [tokens]
    simp
  have calls : CallsOpen (standard.tokens "(abs(2-))") := by
    rw [tokens]
    intro i f h
    rcases i with _ | _ | _ | _ | _ | _ | _ | i <;> first | rfl | cases h
  have hs : prepare "max(1,2,3)*5" = .ok "(max(1,2,3)*5)" := rfl
  have hs' : prepare "abs(2-)" = .ok "(abs(2-))" := rfl
  refine ⟨((Built.standard.evaluate_accounts hs).2.1 2 leftover).1, ?_⟩
  exact ((Built.standard.evaluate_accounts hs').2.2.1 known (by decide) calls).2
    (by decide +kernel)

end SymbolTable

end Reckoner
