import Reckoner.Ieee
import Reckoner.Proofs.Parentheses
import Reckoner.Proofs.Translation

/-!
# Expressions joined by an operator

Two expressions that have values are joined by an operator to one that applies it to them
(`evaluate_join`), whatever they are made of. Only what stands outside of all parentheses can come
between: in the right expression it must bind tighter than the operator, and in the left one it must
not bind looser.

The right expression runs in a group in which the operator waits below all else. `Beneath` relates
this group to the one that the expression has by itself: as long as no symbol ends the operand of
the operator, the two do the same (`Script.ofTokens_beneath`). The last parenthesis then settles the
operands first. For the left expression an imagined `+` waits below: where it could stay, all that
waits above is multiplicative.
-/

namespace Reckoner

variable {α : Type}

/-! ## Operators that wait below -/

namespace Frame

section Operators

variable {frame : Frame} {op : Operator}

/-- If all that waits binds at least as tightly as an operator, all of it is due. -/
theorem due_eq_pending (h : ∀ waiting ∈ frame.pending, op.priority ≤ waiting.priority) :
    frame.due op = frame.pending := by
  rw [← filter_pending, List.filter_eq_self]
  simpa using h

theorem pending_await_eq_singleton
    (h : ∀ waiting ∈ frame.pending, op.priority ≤ waiting.priority) :
    (frame.await op).pending = [op] := by
  rw [pending_await, List.filter_eq_nil_iff.2]
  simpa using h

/-- Only the last of the operators that wait can be additive. -/
theorem isAdditive_of_pending_eq_concat {front : List Operator} {last : Operator}
    (h : frame.pending = front ++ [last]) : ∀ waiting ∈ front, waiting.isAdditive = false := by
  intro waiting hmem
  rw [pending] at h
  have hmul : waiting ∈ frame.multiplicative.toList := by
    cases ha : frame.additive with
    | none =>
      rw [ha, Option.toList_none, List.append_nil] at h
      rw [h]
      exact List.mem_append_left _ hmem
    | some op =>
      rw [ha, Option.toList_some] at h
      rwa [List.append_inj_left' h rfl]
  exact frame.isAdditive_multiplicative waiting (Option.mem_toList.1 hmul)

end Operators

/-- Groups that are the same, but for operators that wait in the last one below all that waits there
already. -/
inductive Beneath (held : List Operator) : List Frame → List Frame → Prop where
  | last {frame frame' : Frame} (function : frame'.function = frame.function)
      (pending : frame'.pending = frame.pending ++ held) : Beneath held [frame] [frame']
  | cons (frame : Frame) {outer outer' : List Frame} (h : Beneath held outer outer') :
      Beneath held (frame :: outer) (frame :: outer')

/-- Whether a symbol settles some of the operators that wait, or closes their group. -/
def settles (held : List Operator) (symbol : Symbol α) : Bool :=
  symbol.closes || held.any (Translation.endsOperand · symbol)

namespace Beneath

variable {held : List Operator} {frames frames' outer outer' : List Frame} {frame frame' : Frame}
  {symbol : Symbol α} {program : List (Symbol α)}

theorem ne_nil (h : Beneath held frames frames') : frames ≠ [] := by
  cases h <;> exact List.cons_ne_nil _ _

theorem exists_cons (h : Beneath held (frame :: outer) frames') :
    ∃ frame' outer', frames' = frame' :: outer' := by
  cases h <;> exact ⟨_, _, rfl⟩

theorem function (h : Beneath held (frame :: outer) (frame' :: outer')) :
    frame'.function = frame.function := by
  cases h with
  | last hf => exact hf
  | cons => rfl

theorem callee (h : Beneath held frames frames') :
    (Frame.callee frames' : List (Symbol α)) = Frame.callee frames := by
  cases h with
  | last hf => simp [Frame.callee, hf]
  | cons => rfl

theorem answered (h : Beneath held frames frames') :
    Beneath held (frames.modifyHead .answered) (frames'.modifyHead .answered) := by
  cases h with
  | last _ hp => exact last rfl hp
  | cons frame h => exact cons frame.answered h

/-- In the last group a symbol that settles nothing of what is held leaves it below. -/
theorem take_last (hf : frame'.function = frame.function)
    (hp : frame'.pending = frame.pending ++ held) (hs : settles held symbol = false) :
    ∃ next, frame'.take [] symbol = ((frame.take [] symbol).1, next) ∧
      Beneath held (frame.take [] symbol).2 next := by
  obtain ⟨hc, hany⟩ := Bool.or_eq_false_iff.1 hs
  rw [List.any_eq_false] at hany
  cases symbol with
  | literal _ | named _ => exact ⟨_, rfl, last hf hp⟩
  | parenLeft => exact ⟨_, rfl, cons opened (last hf hp)⟩
  | parenRight => cases hc
  | function f => exact ⟨_, rfl, last rfl hp⟩
  | comma =>
    obtain rfl : held = [] := List.eq_nil_iff_forall_not_mem.2 fun op hmem => hany op hmem rfl
    rw [List.append_nil] at hp
    refine ⟨[frame'.advance], ?_, last hf rfl⟩
    rw [take, take, hp]
  | operator op =>
    have looser : ∀ waiting ∈ held, ¬ op.priority ≤ waiting.priority := by
      simpa [Translation.endsOperand] using hany
    refine ⟨[frame'.await op], ?_, last hf ?_⟩
    · have none : (held.filter fun waiting => op.priority ≤ waiting.priority) = [] :=
        List.filter_eq_nil_iff.2 (by simpa using looser)
      rw [take, take, ← filter_pending frame', hp, List.filter_append, none, List.append_nil,
        filter_pending]
    · have all : (held.filter fun waiting => !decide (op.priority ≤ waiting.priority)) = held :=
        List.filter_eq_self.2 (by simpa using looser)
      rw [pending_await, pending_await, hp, List.filter_append, all, List.cons_append]

/-- Above the last group a symbol does the same. -/
theorem take_cons (frame : Frame) (h : Beneath held outer outer') (symbol : Symbol α) :
    ∃ next, frame.take outer' symbol = ((frame.take outer symbol).1, next) ∧
      Beneath held (frame.take outer symbol).2 next := by
  cases symbol with
  | literal _ | named _ => exact ⟨_, rfl, cons frame h⟩
  | parenLeft => exact ⟨_, rfl, cons opened (cons frame h)⟩
  | parenRight =>
    refine ⟨_, ?_, h.answered⟩
    rw [take, take, h.callee]
  | comma => exact ⟨_, rfl, cons frame.advance h⟩
  | operator op => exact ⟨_, rfl, cons (frame.await op) h⟩
  | function f => exact ⟨_, rfl, cons (frame.call f) h⟩

/-- **A turn leaves below what it does not settle**, and does the same above it. -/
theorem turn (h : Beneath held (frame :: outer) (frame' :: outer'))
    (hs : outer = [] → settles held symbol = false)
    (ht : frame.turn outer symbol = .ok (program, frames)) :
    ∃ frames', frame'.turn outer' symbol = .ok (program, frames') ∧
      Beneath held frames frames' := by
  obtain ⟨htake, hf⟩ := turn_ok ht
  obtain ⟨next, htake', hnext⟩ : ∃ next, frame'.take outer' symbol = (program, next) ∧
      Beneath held frames next := by
    cases h with
    | last hfunction hpending =>
      have := take_last hfunction hpending (hs rfl)
      rwa [htake] at this
    | cons _ h =>
      have := take_cons frame h symbol
      rwa [htake] at this
  refine ⟨next, ?_, hnext⟩
  rw [turn_eq_take (by rwa [h.function]), htake']

end Beneath

end Frame

/-! ## Symbols above what waits below -/

namespace Script

variable {symbols program : List (Symbol α)}

/-- **Symbols that do not settle what waits below** do the same without it. -/
theorem ofTokens_beneath {held : List Operator} {frames frames' left : List Frame} {depth : Nat}
    (h : ofTokens frames (symbols.map .ok) = ⟨program, .ok left⟩)
    (hb : Frame.Beneath held frames frames') (hd : frames.length = depth + 1)
    (hclear : Translation.firstAt (Frame.settles held) depth symbols = none) :
    ∃ left', ofTokens frames' (symbols.map .ok) = ⟨program, .ok left'⟩ ∧
      Frame.Beneath held left left' := by
  induction symbols generalizing frames frames' depth program with
  | nil =>
    cases h
    exact ⟨frames', rfl, hb⟩
  | cons symbol rest ih =>
    obtain ⟨frame, outer, _, first, next, second, rfl, ⟨⟩, ht, hs, rfl⟩ := ofTokens_cons_eq_ok h
    obtain ⟨frame', outer', rfl⟩ := hb.exists_cons
    obtain ⟨hstop, hgo⟩ := Translation.firstAt_cons_eq_none.1 hclear
    obtain rfl : outer.length = depth := Nat.succ.inj hd
    obtain ⟨next', ht', hb'⟩ := hb.turn (fun hnil => hstop (by rw [hnil]; rfl)) ht
    obtain ⟨top, below, rfl⟩ := List.exists_cons_of_ne_nil hb'.ne_nil
    have shift : Translation.depthAfter outer.length symbol = some below.length := by
      have hlen := Frame.length_of_turn ht
      rw [List.length_cons] at hlen
      exact Translation.depthAfter_eq_some_iff.2 (by omega)
    obtain ⟨left', hscript, hleft⟩ := ih hs hb' rfl (hgo _ shift)
    exact ⟨left', ofTokens_cons_eq_of_turn ht' hscript, hleft⟩

section Join

variable {frame : Frame}

/-- Where a `+` in front would stay, only multiplicative operators wait at the end. -/
theorem isAdditive_of_ofTokens
    (h : ofTokens [Frame.opened] (symbols.map .ok) = ⟨program, .ok [frame]⟩)
    (hclear : Translation.firstAt (Frame.settles [.add]) 0 symbols = none) :
    ∀ waiting ∈ frame.pending, waiting.isAdditive = false := by
  have start : Frame.Beneath [.add] [Frame.opened] [Frame.opened.await .add] := .last rfl rfl
  obtain ⟨left', -, hb⟩ := ofTokens_beneath h start rfl hclear
  cases hb with
  | last _ hpending => exact Frame.isAdditive_of_pending_eq_concat hpending
  | cons _ h => cases h

/-- The symbols of two expressions with an operator between them run the left expression to its end,
then the right one, and leave the operator waiting. -/
theorem ofTokens_join {right program' : List (Symbol α)} {frame' : Frame} {op : Operator}
    (h : ofTokens [Frame.opened] (symbols.map .ok) = ⟨program, .ok [frame]⟩)
    (hf : frame.function = none)
    (htight : ∀ waiting ∈ frame.pending, op.priority ≤ waiting.priority)
    (h' : ofTokens [Frame.opened] (right.map .ok) = ⟨program', .ok [frame']⟩)
    (hclear : Translation.firstAt (Frame.settles [op]) 0 right = none) :
    ∃ joined, ofTokens [Frame.opened] ((symbols ++ .operator op :: right).map .ok) =
        ⟨(program ++ frame.pending.map .operator) ++ program', .ok [joined]⟩ ∧
      joined.function = frame'.function ∧ joined.pending = frame'.pending ++ [op] := by
  have start : Frame.Beneath [op] [Frame.opened] [frame.await op] :=
    .last hf (Frame.pending_await_eq_singleton htight)
  obtain ⟨left, hright, hb⟩ := ofTokens_beneath h' start rfl hclear
  cases hb with
  | cons _ h => cases h
  | last hfunction hpending =>
    refine ⟨_, ?_, hfunction, hpending⟩
    have turned : frame.turn [] (.operator op : Symbol α) =
        .ok (frame.pending.map .operator, [frame.await op]) := by
      rw [Frame.turn_operator hf, Frame.due_eq_pending htight]
    rw [List.map_append, List.map_cons, List.append_assoc]
    exact ofTokens_append_eq_ok h (ofTokens_cons_eq_of_turn turned hright)

end Join

end Script

/-- Programs of one value each, one behind the other, leave both values for an operator. -/
theorem Postfix.run_join {A : Arithmetic α} {left right : List (Symbol α)} {v₁ v₂ : α}
    (hl : run A left [] = .ok [v₁]) (hr : run A right [] = .ok [v₂]) (op : Operator) :
    run A (left ++ right ++ [.operator op]) [] = .ok [A.operator op v₁ v₂] := by
  have above := run_frame hr [v₁]
  rw [List.nil_append] at above
  rw [run_append, run_append, hl, Except.bind, above]
  rfl

/-! ## What stands outside of all parentheses -/

/-- A character stands in a text where all parentheses are closed. -/
def Outside (text : List Char) (c : Char) : Prop :=
  ∃ front, front ++ [c] <+: text ∧ front.count '(' = front.count ')'

instance {text : List Char} {c : Char} : Decidable (Outside text c) :=
  decidable_of_iff (∃ front ∈ text.inits, front ++ [c] <+: text ∧ front.count '(' = front.count ')')
    ⟨fun ⟨front, _, h⟩ => ⟨front, h⟩, fun ⟨front, hfront, h⟩ =>
      ⟨front, (List.mem_inits ..).2 ((List.prefix_append ..).trans hfront), hfront, h⟩⟩

theorem not_outside_of_all {text chars : List Char}
    (h : chars.all (fun c => !decide (Outside text c)) = true) :
    ∀ c ∈ chars, ¬ Outside text c := by
  simpa using h

/-- Outside of all parentheses a text has no comma, and no operator that binds at most as tightly as
`op`. -/
structure Shelters (op : Operator) (text : List Char) : Prop where
  comma : ¬ Outside text ','
  operator : ∀ other : Operator, other.priority ≤ op.priority → ¬ Outside text other.char

theorem shelters_of_isAdditive {op : Operator} (hop : op.isAdditive = true) {text : List Char}
    (h : ∀ c ∈ ['+', '-', ','], ¬ Outside text c) : Shelters op text := by
  refine ⟨h _ (by decide), fun other hle => h _ ?_⟩
  cases other with
  | add | sub => decide
  | mul | div =>
    cases op with
    | add | sub => exact absurd hle (by decide)
    | mul | div => cases hop

theorem shelters_any (op : Operator) {text : List Char}
    (h : ∀ c ∈ ['+', '-', '*', '/', ','], ¬ Outside text c) : Shelters op text :=
  ⟨h _ (by decide), fun other _ => h _ (by cases other <;> decide)⟩

namespace SymbolTable

variable {table : SymbolTable}

namespace Built

variable (built : table.Built) {A : Arithmetic Float} {expression : String} {value : Float}

include built

/-- An expression that has a value closes no group that it has not opened. -/
theorem not_outside_parenRight (h : table.evaluate A expression = .ok value) :
    ¬ Outside expression.toList ')' := by
  rintro ⟨front, hfront, hclosed⟩
  rcases built.evaluate_fits A expression with ⟨hb, -⟩ | ⟨-, h'⟩ | ⟨-, h'⟩ | ⟨_, -, h'⟩
  · have := hb.front _ hfront
    simp at this
    omega
  all_goals
    rw [h] at h'
    cases h'

/-- Symbols outside of all groups are spelled outside of all parentheses. -/
theorem firstAt_eq_none {symbols : List (Symbol Float)}
    (hscan : table.scan (kept expression) = symbols.map .ok) {stop : Symbol Float → Bool}
    (h : ∀ symbol, stop symbol = true →
      ∃ c, symbol.delimiter? = some c ∧ ¬ Outside expression.toList c) :
    Translation.firstAt stop 0 symbols = none := by
  rw [Option.eq_none_iff_forall_ne_some]
  intro n hn
  obtain ⟨before, symbol, after, rfl, hstop, hclosed⟩ := Translation.exists_of_firstAt hn
  obtain ⟨c, hc, houtside⟩ := h symbol hstop
  obtain ⟨front, hfront, hopens, hcloses⟩ := built.exists_place hscan hc
  exact houtside ⟨front, hfront, by omega⟩

/-- No symbol of a sheltered expression settles an operator that waits below. -/
theorem firstAt_settles (h : table.evaluate A expression = .ok value) {op : Operator}
    (hs : Shelters op expression.toList) {symbols : List (Symbol Float)}
    (hscan : table.scan (kept expression) = symbols.map .ok) :
    Translation.firstAt (Frame.settles [op]) 0 symbols = none := by
  refine built.firstAt_eq_none hscan fun symbol hstop => ?_
  cases symbol with
  | parenRight => exact ⟨')', rfl, built.not_outside_parenRight h⟩
  | comma => exact ⟨',', rfl, hs.comma⟩
  | operator other =>
    have hle : other.priority ≤ op.priority := by
      simpa [Frame.settles, Translation.endsOperand, Symbol.closes] using hstop
    exact ⟨other.char, rfl, hs.operator other hle⟩
  | literal _ | named _ | parenLeft | function _ =>
    simp [Frame.settles, Translation.endsOperand, Symbol.closes] at hstop

theorem scan_join (left right : String) (op : Operator) :
    table.scan (kept (left ++ op.char.toString ++ right)) =
      table.scan (kept left) ++ .ok (.operator op) :: table.scan (kept right) := by
  have hchar : op.char.toString.toList = [op.char] := String.toList_singleton _
  have hop : kept op.char.toString = [op.char] := by
    rw [← hchar]
    refine kept_eq_self fun c hc => ?_
    rw [hchar, List.mem_singleton] at hc
    rw [hc, Lexeme.isBlank_of_isDelimiter op.isDelimiter_char]
  rw [kept_append, kept_append, hop, List.append_assoc, List.singleton_append,
    scan_append_delimiter op.isDelimiter_char, built.scan_operator]

/-- What waits at the end of the left expression binds as tightly as the operator; what waits at the
end of the right one is settled before it. -/
theorem evaluate_join_of_shelters {left right : String} {v₁ v₂ : Float}
    (hl : table.evaluate A left = .ok v₁) (hr : table.evaluate A right = .ok v₂) {op : Operator}
    (hleft : op.isAdditive = true ∨ Shelters .add left.toList)
    (hright : Shelters op right.toList) :
    table.evaluate A (left ++ op.char.toString ++ right) = .ok (A.operator op v₁ v₂) := by
  obtain ⟨symbols, program, frame, hscan, hscript, hf, hrun⟩ := built.evaluate_eq_ok_iff.1 hl
  obtain ⟨symbols', program', frame', hscan', hscript', hf', hrun'⟩ :=
    built.evaluate_eq_ok_iff.1 hr
  have tight : ∀ waiting ∈ frame.pending, op.priority ≤ waiting.priority := by
    intro waiting hmem
    rcases hleft with hop | hleft
    · exact Operator.priority_le_of_isAdditive hop waiting
    · have clear := built.firstAt_settles hl hleft hscan
      have hmul := Script.isAdditive_of_ofTokens hscript clear waiting hmem
      exact Operator.priority_le_of_multiplicative hmul op
  have clear' := built.firstAt_settles hr hright hscan'
  obtain ⟨joined, hjoined, hfunction, hpending⟩ :=
    Script.ofTokens_join hscript hf tight hscript' clear'
  refine built.evaluate_eq_ok_iff.2 ⟨symbols ++ .operator op :: symbols', _, joined, ?_, hjoined,
    hfunction.trans hf', ?_⟩
  · rw [built.scan_join, hscan, hscan', List.map_append, List.map_cons]
  · rw [hpending, List.map_append, List.append_assoc, ← List.append_assoc program',
      ← List.append_assoc]
    exact Postfix.run_join hrun hrun' op

/-- **Two expressions joined by an operator** have the value that it gives for theirs, the left one
first. For `+` and `-` no `+`, no `-` and no comma of the right expression may stand outside of all
its parentheses. For `*` and `/` this goes for the left expression, and the right one may have no
operator and no comma there. -/
theorem evaluate_join {left right : String} {v₁ v₂ : Float}
    (hl : table.evaluate A left = .ok v₁) (hr : table.evaluate A right = .ok v₂) :
    (∀ op ∈ [Operator.add, .sub], (∀ c ∈ ['+', '-', ','], ¬ Outside right.toList c) →
      table.evaluate A (left ++ op.char.toString ++ right) = .ok (A.operator op v₁ v₂)) ∧
    (∀ op ∈ [Operator.mul, .div], (∀ c ∈ ['+', '-', ','], ¬ Outside left.toList c) →
      (∀ c ∈ ['+', '-', '*', '/', ','], ¬ Outside right.toList c) →
      table.evaluate A (left ++ op.char.toString ++ right) = .ok (A.operator op v₁ v₂)) := by
  have additive : ∀ op ∈ [Operator.add, .sub], op.isAdditive = true := by decide
  constructor
  · intro op hop hright
    have sheltered := shelters_of_isAdditive (additive op hop) hright
    exact built.evaluate_join_of_shelters hl hr (.inl (additive op hop)) sheltered
  · intro op _ hleft hright
    have sheltered : Shelters .add left.toList := shelters_of_isAdditive rfl hleft
    exact built.evaluate_join_of_shelters hl hr (.inr sheltered) (shelters_any op hright)

end Built

/-- The `+` behind `(1)(2)` is settled by the `-`, as the `*` of the other expression is by the
`/`. -/
theorem evaluate_join_trailing :
    SymbolTable.standard.evaluate .ieee "(1)(2)+-4*(5+1)" = .ok (-21) ∧
      SymbolTable.standard.evaluate .ieee "4*(5+1)/(1-7)" = .ok (-4) := by
  have trailing : SymbolTable.standard.evaluate .ieee "(1)(2)+" = .ok 3 := by decide +kernel
  have product : SymbolTable.standard.evaluate .ieee "4*(5+1)" = .ok 24 := by decide +kernel
  have group : SymbolTable.standard.evaluate .ieee "(1-7)" = .ok (-6) := by decide +kernel
  have sheltered : ∀ c ∈ ['+', '-', ','], ¬ Outside "4*(5+1)".toList c :=
    not_outside_of_all (by decide +kernel)
  have grouped : ∀ c ∈ ['+', '-', '*', '/', ','], ¬ Outside "(1-7)".toList c :=
    not_outside_of_all (by decide +kernel)
  have sub := (Built.standard.evaluate_join trailing product).1 .sub (by decide) sheltered
  have div := (Built.standard.evaluate_join product group).2 .div (by decide) sheltered grouped
  exact ⟨sub.trans (by decide +kernel), div.trans (by decide +kernel)⟩

end SymbolTable

end Reckoner
