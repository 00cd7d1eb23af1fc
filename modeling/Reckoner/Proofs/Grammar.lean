import Reckoner.Ieee
import Reckoner.Proofs.Evaluation

/-!
# The infix grammar

A `Tree` is a derivation in the infix grammar, with a text and a value of its own. Its phrases are
sums of products of factors, and both kinds of operators associate to the left. The evaluator
computes the value of every tree from its text, wherever blanks are put into it (`evaluate_text`).

The script of a tree's text is its postfix form up to the operators that still wait when the text
ends (`Tree.ofTokens_text`). A factor leaves none waiting, a product at most one multiplicative
operator, a sum at most one of each kind. That holds above any groups, so the statement is its own
induction hypothesis.
-/

namespace Reckoner

/-! ## Trees -/

/-- The phrases of the grammar, the loosest first. -/
inductive Phrase where
  | sum
  | product
  | factor

/-- Derivations in the infix grammar, over the variables of a table. -/
inductive Tree (table : SymbolTable) : Phrase → Type where
  /-- A word that begins with a digit and reads as a number. -/
  | number (word : List Char) (value : Float) (digit : ∃ c ∈ word.head?, c.isDigit = true)
      (plain : ∀ c ∈ word, Lexeme.isDelimiter c = false)
      (reads : readFloat? word = some value) : Tree table .factor
  /-- A name that the table binds to a number. -/
  | named (name : String) (value : Float) (bound : table.lookup name = some (.named value)) :
      Tree table .factor
  | group (inner : Tree table .sum) : Tree table .factor
  | unary (f : UnaryBuiltin) (argument : Tree table .sum) : Tree table .factor
  | binary (f : BinaryBuiltin) (first second : Tree table .sum) : Tree table .factor
  | ofFactor (factor : Tree table .factor) : Tree table .product
  | multiply (left : Tree table .product) (op : Operator) (h : op = .mul ∨ op = .div)
      (right : Tree table .factor) : Tree table .product
  | ofProduct (product : Tree table .product) : Tree table .sum
  | add (left : Tree table .sum) (op : Operator) (h : op = .add ∨ op = .sub)
      (right : Tree table .product) : Tree table .sum

namespace Tree

variable {table : SymbolTable}

/-- The text that a derivation derives. -/
def text {phrase : Phrase} : Tree table phrase → List Char
  | number word .. => word
  | named name .. => name.toList
  | group inner => '(' :: inner.text ++ [')']
  | unary f argument => f.name.toList ++ ('(' :: argument.text ++ [')'])
  | binary f first second =>
    f.name.toList ++ ('(' :: (first.text ++ ',' :: second.text) ++ [')'])
  | ofFactor factor => factor.text
  | multiply left op _ right => left.text ++ op.char :: right.text
  | ofProduct product => product.text
  | add left op _ right => left.text ++ op.char :: right.text

/-- The value of a derivation. -/
def value (A : Arithmetic Float) {phrase : Phrase} : Tree table phrase → Float
  | number _ value .. => value
  | named _ value _ => value
  | group inner => inner.value A
  | unary f argument => A.unary f (argument.value A)
  | binary f first second => A.binary f (first.value A) (second.value A)
  | ofFactor factor => factor.value A
  | multiply left op _ right => A.operator op (left.value A) (right.value A)
  | ofProduct product => product.value A
  | add left op _ right => A.operator op (left.value A) (right.value A)

/-- A derivation in postfix form. -/
def postfixForm {phrase : Phrase} : Tree table phrase → List (Symbol Float)
  | number _ value .. => [.literal value]
  | named _ value _ => [.named value]
  | group inner => inner.postfixForm
  | unary f argument => argument.postfixForm ++ [.function (.unary f)]
  | binary f first second => first.postfixForm ++ second.postfixForm ++ [.function (.binary f)]
  | ofFactor factor => factor.postfixForm
  | multiply left op _ right => left.postfixForm ++ right.postfixForm ++ [.operator op]
  | ofProduct product => product.postfixForm
  | add left op _ right => left.postfixForm ++ right.postfixForm ++ [.operator op]

/-- The postfix form of a derivation computes its value on top of any values. -/
theorem run_postfixForm (A : Arithmetic Float) {phrase : Phrase} (tree : Tree table phrase)
    (values : List Float) :
    Postfix.run A tree.postfixForm values = .ok (tree.value A :: values) := by
  induction tree generalizing values with
  | number | named => rfl
  | group inner ih => exact ih values
  | unary f argument ih =>
    rw [postfixForm, Postfix.run_append, ih]
    rfl
  | binary f first second ih₁ ih₂ =>
    rw [postfixForm, Postfix.run_append, Postfix.run_append, ih₁, Except.bind, ih₂]
    rfl
  | ofFactor factor ih => exact ih values
  | multiply left op h right ih₁ ih₂ =>
    rw [postfixForm, Postfix.run_append, Postfix.run_append, ih₁, Except.bind, ih₂]
    rfl
  | ofProduct product ih => exact ih values
  | add left op h right ih₁ ih₂ =>
    rw [postfixForm, Postfix.run_append, Postfix.run_append, ih₁, Except.bind, ih₂]
    rfl

end Tree

/-! ## What waits while a tree is read -/

namespace Frame

/-- A group without the operators that a phrase can leave waiting. -/
def without : Phrase → Frame → Frame
  | .factor, frame => frame
  | .product, frame =>
    { frame with
      multiplicative := none, isAdditive_multiplicative := opened.isAdditive_multiplicative }
  | .sum, frame => { opened with commas := frame.commas, function := frame.function }

/-- The operators that a phrase has left waiting, top first. -/
def owed : Phrase → Frame → List Operator
  | .factor, _ => []
  | .product, frame => frame.multiplicative.toList
  | .sum, frame => frame.pending

theorem function_of_without {phrase : Phrase} {frame frame' : Frame}
    (h : frame.without phrase = frame') (hf : frame'.function = none) : frame.function = none := by
  subst h
  cases phrase <;> exact hf

theorem without_product_await {frame : Frame} {op : Operator} (h : op.isAdditive = false) :
    (frame.await op).without .product = frame.without .product := by
  simp [without, await, h]

theorem without_sum_await {frame : Frame} {op : Operator} :
    (frame.await op).without .sum = frame.without .sum := rfl

theorem without_product_await_self {frame : Frame} {op : Operator} (h : op.isAdditive = true) :
    (frame.await op).without .product = frame.await op := by
  simp [without, await, h]

end Frame

namespace Script

variable {α : Type} {below outer : List Frame} {top frame middle last : Frame}
  {tokens : List (Except EvalError (Symbol α))} {program form : List (Symbol α)}

/-- The end of a group settles what a sum has left waiting, and the function in front of it. -/
theorem ofTokens_sum_parenRight
    (h : ofTokens (top :: below) tokens = ⟨program, .ok (last :: below)⟩)
    (hl : last.function = none) (hp : program ++ (last.owed .sum).map .operator = form) :
    ofTokens (top :: below) (tokens ++ [.ok .parenRight]) =
      ⟨form ++ Frame.callee below, .ok (below.modifyHead Frame.answered)⟩ := by
  rw [ofTokens_append_eq_ok h (ofTokens_singleton_of_turn (Frame.turn_parenRight hl)), ← hp,
    List.append_assoc]
  rfl

theorem ofTokens_infix {table : SymbolTable} (built : table.Built) {left right : List Char}
    {program form : List (Symbol Float)} (hf : middle.function = none) (op : Operator)
    (h : ofTokens (frame :: outer) (table.scan left) = ⟨program, .ok (middle :: outer)⟩)
    (h' : ofTokens (middle.await op :: outer) (table.scan right) = ⟨form, .ok (last :: outer)⟩) :
    ofTokens (frame :: outer) (table.scan (left ++ op.char :: right)) =
      ⟨program ++ ((middle.due op).map .operator ++ form), .ok (last :: outer)⟩ := by
  rw [SymbolTable.scan_append_delimiter (Operator.isDelimiter_char op), built.scan_operator]
  exact ofTokens_append_eq_ok h (ofTokens_cons_eq_of_turn (Frame.turn_operator hf op) h')

/-- A call comes to its arguments and then its function, and leaves the groups as they were. -/
theorem ofTokens_call (hf : frame.function = none) (f : Builtin)
    (h : ofTokens (.opened :: frame.call f :: outer) tokens =
      ⟨program, .ok (last :: frame.call f :: outer)⟩)
    (hl : last.function = none) (hp : program ++ (last.owed .sum).map .operator = form) :
    ofTokens (frame :: outer)
        (.ok (.function f) :: .ok .parenLeft :: (tokens ++ [.ok .parenRight])) =
      ⟨form ++ [.function f], .ok (frame :: outer)⟩ := by
  have closed := ofTokens_sum_parenRight h hl hp
  have back : (frame.call f).answered = frame := by
    ext1 <;> first | rfl | exact hf.symm
  rw [List.modifyHead_cons, back] at closed
  exact ofTokens_cons_eq_of_turn (Frame.turn_function hf f)
    (ofTokens_cons_eq_of_turn Frame.turn_parenLeft closed)

end Script

namespace Tree

variable {table : SymbolTable}

/-- **The script of a tree's text** is its postfix form up to the operators that still wait. -/
theorem ofTokens_text (built : table.Built) {phrase : Phrase} (tree : Tree table phrase)
    {frame : Frame} (hf : frame.function = none) (hw : frame.without phrase = frame)
    (outer : List Frame) :
    ∃ program frame',
      Script.ofTokens (frame :: outer) (table.scan tree.text) = ⟨program, .ok (frame' :: outer)⟩ ∧
      frame'.without phrase = frame ∧
      program ++ (frame'.owed phrase).map .operator = tree.postfixForm := by
  induction tree generalizing frame outer with
  | number word value digit plain reads =>
    refine ⟨[.literal value], frame, ?_, rfl, rfl⟩
    rw [text, SymbolTable.scan_number digit plain reads]
    exact Script.ofTokens_singleton_of_turn (Frame.turn_literal hf value)
  | named name value bound =>
    refine ⟨[.named value], frame, ?_, rfl, rfl⟩
    rw [text, SymbolTable.scan_name (built.isName_of_lookup bound) bound]
    exact Script.ofTokens_singleton_of_turn (Frame.turn_named hf value)
  | group inner ih =>
    obtain ⟨program, last, hs, hl, hp⟩ := @ih .opened rfl rfl (frame :: outer)
    refine ⟨inner.postfixForm, frame, ?_, rfl, by simp [Frame.owed, postfixForm]⟩
    have closed := Script.ofTokens_sum_parenRight hs (Frame.function_of_without hl rfl) hp
    rw [List.modifyHead_cons, Frame.answered_eq_self hf, Frame.callee, hf] at closed
    rw [text, built.scan_group, Script.ofTokens_cons_eq_of_turn Frame.turn_parenLeft closed]
    simp
  | unary f argument ih =>
    obtain ⟨program, last, hs, hl, hp⟩ := @ih .opened rfl rfl (frame.call (.unary f) :: outer)
    refine ⟨(unary f argument).postfixForm, frame, ?_, rfl, by simp [Frame.owed]⟩
    refine (congrArg _ (built.scan_call (.unary f) argument.text)).trans ?_
    exact Script.ofTokens_call hf (.unary f) hs (Frame.function_of_without hl rfl) hp
  | binary f first second ih₁ ih₂ =>
    obtain ⟨program₁, middle, hs₁, hl₁, hp₁⟩ :=
      @ih₁ .opened rfl rfl (frame.call (.binary f) :: outer)
    have hm := Frame.function_of_without hl₁ rfl
    obtain ⟨program₂, last, hs₂, hl₂, hp₂⟩ :=
      @ih₂ middle.advance hm rfl (frame.call (.binary f) :: outer)
    have hs := Script.ofTokens_append_eq_ok hs₁
      (Script.ofTokens_cons_eq_of_turn (Frame.turn_comma hm) hs₂)
    refine ⟨(binary f first second).postfixForm, frame, ?_, rfl, by simp [Frame.owed]⟩
    -- the comma settles what the first argument left waiting, the parenthesis what the second did
    have hp : program₁ ++ (middle.pending.map .operator ++ program₂) ++
        (last.owed .sum).map .operator = first.postfixForm ++ second.postfixForm := by
      rw [← hp₁, ← hp₂]
      simp [Frame.owed]
    have called := Script.ofTokens_call hf (.binary f) hs (Frame.function_of_without hl₂ hm) hp
    rw [← built.scan_comma, ← SymbolTable.scan_append_delimiter rfl] at called
    exact (congrArg _ (built.scan_call (.binary f) _)).trans called
  | ofFactor factor ih =>
    obtain ⟨program, last, hs, hl, hp⟩ := ih hf rfl outer
    obtain rfl : last = frame := hl
    have hmul : last.multiplicative = none := by
      rw [← hw]
      rfl
    refine ⟨program, last, hs, hw, ?_⟩
    simpa [Frame.owed, hmul, postfixForm] using hp
  | multiply left op h right ih₁ ih₂ =>
    obtain ⟨program₁, middle, hs₁, hl₁, hp₁⟩ := ih₁ hf hw outer
    have hop : op.isAdditive = false := by rcases h with rfl | rfl <;> rfl
    have hm := Frame.function_of_without hl₁ hf
    obtain ⟨program₂, last, hs₂, hl₂, hp₂⟩ := @ih₂ (middle.await op) hm rfl outer
    obtain rfl : last = middle.await op := hl₂
    refine ⟨_, middle.await op, Script.ofTokens_infix built hm op hs₁ hs₂,
      (Frame.without_product_await hop).trans hl₁, ?_⟩
    · rw [postfixForm, ← hp₁, ← hp₂]
      simp [Frame.owed, Frame.due, Frame.await, hop]
  | ofProduct product ih =>
    have hw' : frame.without .product = frame := by
      rw [← hw]
      rfl
    obtain ⟨program, last, hs, hl, hp⟩ := ih hf hw' outer
    have hadd : last.additive = none := by
      have : (last.without .product).additive = none := by
        rw [hl, ← hw]
        rfl
      exact this
    refine ⟨program, last, hs, ?_, ?_⟩
    · calc last.without .sum = (last.without .product).without .sum := rfl
        _ = frame := by rw [hl, hw]
    · simpa [Frame.owed, Frame.pending, hadd, postfixForm] using hp
  | add left op h right ih₁ ih₂ =>
    obtain ⟨program₁, middle, hs₁, hl₁, hp₁⟩ := ih₁ hf hw outer
    have hop : op.isAdditive = true := by rcases h with rfl | rfl <;> rfl
    have hm := Frame.function_of_without hl₁ hf
    obtain ⟨program₂, last, hs₂, hl₂, hp₂⟩ :=
      @ih₂ (middle.await op) hm (Frame.without_product_await_self hop) outer
    -- the right product leaves `op` where it waits, behind at most one multiplicative operator
    have hadd : last.additive = some op := by
      have : (last.without .product).additive = some op := by simp [hl₂, Frame.await, hop]
      exact this
    refine ⟨_, last, Script.ofTokens_infix built hm op hs₁ hs₂, ?_, ?_⟩
    · calc last.without .sum = (last.without .product).without .sum := rfl
        _ = middle.without .sum := by rw [hl₂, Frame.without_sum_await]
        _ = frame := hl₁
    · rw [postfixForm, ← hp₁, ← hp₂]
      simp [Frame.owed, Frame.due, Frame.pending, hop, hadd]

/-- A text that is derived has no blanks. -/
theorem isBlank_of_mem_text (built : table.Built) {phrase : Phrase} (tree : Tree table phrase) :
    ∀ c ∈ tree.text, isBlank c = false := by
  have hop : ∀ op : Operator, isBlank op.char = false := fun op =>
    Lexeme.isBlank_of_isDelimiter op.isDelimiter_char
  have hname : ∀ f : Builtin, ∀ c ∈ f.name.toList, isBlank c = false := fun f =>
    (SymbolTable.isName_builtin f).isBlank
  have hmark : isBlank '(' = false ∧ isBlank ')' = false ∧ isBlank ',' = false := ⟨rfl, rfl, rfl⟩
  induction tree with
  | number word value digit plain reads =>
    obtain ⟨d, hd, hdigit⟩ := digit
    obtain ⟨rest, rfl⟩ : ∃ rest, word = d :: rest := List.head?_eq_some_iff.1 hd
    exact isBlank_of_readFloat? hdigit reads
  | named name value bound => exact (built.isName_of_lookup bound).isBlank
  | group inner ih => simpa [text, hmark, or_imp, forall_and] using ih
  | unary f argument ih => simpa [text, hmark, or_imp, forall_and] using ⟨hname (.unary f), ih⟩
  | binary f first second ih₁ ih₂ =>
    simpa [text, hmark, or_imp, forall_and] using ⟨hname (.binary f), ih₁, ih₂⟩
  | ofFactor factor ih => exact ih
  | multiply left op h right ih₁ ih₂ => simpa [text, hop, or_imp, forall_and] using ⟨ih₁, ih₂⟩
  | ofProduct product ih => exact ih
  | add left op h right ih₁ ih₂ => simpa [text, hop, or_imp, forall_and] using ⟨ih₁, ih₂⟩

theorem kept_text (built : table.Built) {phrase : Phrase} (tree : Tree table phrase) :
    kept (String.ofList tree.text) = tree.text := by
  have plain : ∀ c ∈ (String.ofList tree.text).toList, isBlank c = false := by
    rw [String.toList_ofList]
    exact tree.isBlank_of_mem_text built
  rw [kept_eq_self plain, String.toList_ofList]

theorem text_ne_nil (built : table.Built) {phrase : Phrase} (tree : Tree table phrase) :
    tree.text ≠ [] := by
  induction tree with
  | number word value digit plain reads =>
    rintro rfl
    obtain ⟨c, hc, -⟩ := digit
    cases hc
  | named name value bound => exact (built.isName_of_lookup bound).ne_nil
  | group | unary | binary | multiply | add => simp [text]
  | ofFactor factor ih => exact ih
  | ofProduct product ih => exact ih

/-- **The evaluator computes the value of every derivation**, in whatever places blanks are put
into its text. -/
theorem evaluate_text (built : table.Built) (A : Arithmetic Float) (tree : Tree table .sum)
    {expression : String} (h : kept expression = kept (String.ofList tree.text)) :
    table.evaluate A expression = .ok (tree.value A) := by
  obtain ⟨program, last, hs, hl, hp⟩ := @ofTokens_text _ built _ tree .opened rfl rfl []
  have closed := Script.ofTokens_sum_parenRight hs (Frame.function_of_without hl rfl) hp
  rw [tree.kept_text built] at h
  rw [built.evaluate_eq, h, if_neg (tree.text_ne_nil built), closed]
  simp only [Script.outcome, Script.perform, Frame.callee, List.append_nil, run_postfixForm]
  rfl

/-- The derivation of `9-4-max(x,2)*3`. -/
def sample : Tree .standard .sum :=
  let nine : Tree .standard .factor :=
    .number ['9'] 9 ⟨'9', rfl, rfl⟩ (List.forall_mem_singleton.2 rfl) (by decide +kernel)
  let four : Tree .standard .factor :=
    .number ['4'] 4 ⟨'4', rfl, rfl⟩ (List.forall_mem_singleton.2 rfl) (by decide +kernel)
  let two : Tree .standard .factor :=
    .number ['2'] 2 ⟨'2', rfl, rfl⟩ (List.forall_mem_singleton.2 rfl) (by decide +kernel)
  let three : Tree .standard .factor :=
    .number ['3'] 3 ⟨'3', rfl, rfl⟩ (List.forall_mem_singleton.2 rfl) (by decide +kernel)
  let x : Tree .standard .factor := .named "x" 10 (by decide +kernel)
  .add (.add (.ofProduct (.ofFactor nine)) .sub (.inr rfl) (.ofFactor four)) .sub (.inr rfl)
    (.multiply (.ofFactor (.binary .max (.ofProduct (.ofFactor x)) (.ofProduct (.ofFactor two))))
      .mul (.inl rfl) three)

theorem evaluate_sample :
    SymbolTable.standard.evaluate .ieee " 9 - 4\t- ma x(x, 2)*3" = .ok (-25) :=
  (evaluate_text .standard .ieee sample (by decide +kernel)).trans
    (congrArg Except.ok (by decide +kernel))

end Tree

end Reckoner
