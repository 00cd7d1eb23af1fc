import Reckoner.Proofs.Table.Definition
import Reckoner.Proofs.Uniformity

/-!
# What a definition leaves alone

A definition changes the outcome of those expressions only that mention its name
(`Built.evaluate_define_of_not_mentions`). If the name was new, it changes only the outcome of those
that failed for want of it (`Built.evaluate_define_of_new`). No expression loses its value, whether
the name was new or not (`Built.exists_value_define`).

With a new name in front of it, an expression fails for that name or for something that comes
earlier (`Script.outcome_append_error`). With a name that is bound again, the tokens of an
expression stay the same but for their numbers, and its evaluation goes the same way.
-/

namespace Reckoner

namespace SymbolTable

/-- The expression has the name for a lexeme. -/
def Mentions (expression name : String) : Prop :=
  ∃ source lexeme, prepare expression = .ok source ∧ lexeme ∈ Lexeme.split source.toList ∧
    lexeme.text = name

variable {table table' : SymbolTable} {name : String} {value : Float}

theorem mentions_of_mem_kept {expression : String} {lexeme : Lexeme}
    (h : lexeme ∈ Lexeme.split (kept expression)) : Mentions expression lexeme.text := by
  have hne : kept expression ≠ [] := by
    intro hnil
    rw [hnil, Lexeme.split_nil] at h
    cases h
  refine ⟨String.ofList ('(' :: kept expression ++ [')']), lexeme, ?_, ?_, rfl⟩
  · rw [prepare_eq, if_neg hne]
  · rw [String.toList_ofList, split_group]
    simp [h]

/-! ## Tokens after a definition -/

theorem classify_define (defined : table.define name value = .ok table') {lexeme : Lexeme}
    (h : lexeme.text ≠ name) : table'.classify lexeme = table.classify lexeme := by
  cases digit : lexeme.chars.head?.any Char.isDigit with
  | true => rw [classify_of_digit digit, classify_of_digit digit]
  | false =>
    rw [classify_of_not_digit digit, classify_of_not_digit digit, lookup_define defined,
      if_neg h.symm]

theorem map_classify_define (defined : table.define name value = .ok table')
    {lexemes : List Lexeme} (h : ∀ lexeme ∈ lexemes, lexeme.text ≠ name) :
    lexemes.map table'.classify = lexemes.map table.classify :=
  List.map_congr_left fun lexeme hmem => classify_define defined (h lexeme hmem)

namespace Built

variable (built : table.Built) (defined : table.define name value = .ok table')

include built defined

theorem classify_of_new (new : table.lookup name = none) {lexeme : Lexeme}
    (h : lexeme.text = name) : table.classify lexeme = .error (.unknownSymbol name) := by
  have digit : lexeme.chars.head?.any Char.isDigit = false := by
    obtain ⟨c, hc, hdigit⟩ := (built.isName_of_admits (define_eq_ok defined).2.1).head
    rw [← h, Lexeme.text, String.toList_ofList] at hc
    rw [Option.mem_def.1 hc]
    exact hdigit
  rw [classify_of_not_digit digit, h, new]

/-! ## Outcomes after a definition -/

/-- **An expression that does not mention the name** has the same outcome. -/
theorem evaluate_define_of_not_mentions (A : Arithmetic Float) {expression : String}
    (h : ¬ Mentions expression name) :
    table'.evaluate A expression = table.evaluate A expression := by
  have same : table'.scan (kept expression) = table.scan (kept expression) :=
    map_classify_define defined fun lexeme hmem heq => h (heq ▸ mentions_of_mem_kept hmem)
  rw [(built.define defined).evaluate_eq, built.evaluate_eq, same]

/-- **If the name is new**, an expression has the same outcome unless it failed for that name. -/
theorem evaluate_define_of_new (new : table.lookup name = none) {A : Arithmetic Float}
    {expression : String} (h : table.evaluate A expression ≠ .error (.unknownSymbol name)) :
    table'.evaluate A expression = table.evaluate A expression := by
  cases hfind : (Lexeme.split (kept expression)).find? fun lexeme => lexeme.text = name with
  | none =>
    have same : table'.scan (kept expression) = table.scan (kept expression) :=
      map_classify_define defined (by simpa using hfind)
    rw [(built.define defined).evaluate_eq, built.evaluate_eq, same]
  | some lexeme =>
    -- in front of the first mention the tokens are the same, and none of them fails for the name
    obtain ⟨htext, before, after, hsplit, hbefore⟩ := List.find?_eq_some_iff_append.1 hfind
    have unknown := built.classify_of_new defined new (of_decide_eq_true htext)
    have known : before.map table'.classify = before.map table.classify :=
      map_classify_define defined (by simpa using hbefore)
    have hscan : table.scan (kept expression) = before.map table.classify ++
        .error (.unknownSymbol name) :: after.map table.classify := by
      rw [scan, hsplit, List.map_append, List.map_cons, unknown]
    have hscan' : table'.scan (kept expression) =
        before.map table.classify ++ (lexeme :: after).map table'.classify := by
      rw [scan, hsplit, List.map_append, known]
    have hne : kept expression ≠ [] := by
      intro hnil
      rw [hnil, scan_nil] at hscan
      simp at hscan
    rw [built.evaluate_eq, if_neg hne, hscan, List.append_assoc, List.cons_append] at h ⊢
    rw [(built.define defined).evaluate_eq, if_neg hne, hscan', List.append_assoc]
    rcases Script.outcome_append_error A [Frame.opened] (before.map table.classify)
      (after.map table.classify ++ [.ok .parenRight]) (.unknownSymbol name) with herror | same
    · exact absurd herror h
    · exact same _

/-- **Every expression that has a value keeps one**, also when the name stood for another value. -/
theorem exists_value_define {A : Arithmetic Float} {expression : String} {v : Float}
    (h : table.evaluate A expression = .ok v) :
    ∃ v', table'.evaluate A expression = .ok v' := by
  cases hlookup : table.lookup name with
  | none =>
    have same := built.evaluate_define_of_new defined hlookup (by rw [h]; exact nofun)
    exact ⟨v, same.trans h⟩
  | some symbol =>
    have names := isSome_lookup_define defined (hlookup ▸ rfl)
    obtain ⟨source, hs⟩ := built.exists_prepare (A := A) (by rw [h]; exact nofun)
    have alike (lexemes : List Lexeme) : List.Forall₂ Lexeme.Alike lexemes lexemes :=
      List.forall₂_same.2 fun lexeme _ => .same lexeme
    have tokens := built.map_forget_tokens (built.define defined) names
      (alike (Lexeme.split source.toList))
    have outcomes := (map_forget_report hs hs tokens A A).1
    rw [h] at outcomes
    rcases values_or_same_error outcomes with ⟨_, v', -, h'⟩ | ⟨_, ⟨⟩, -⟩
    exact ⟨v', h'⟩

/-- **A definition is a conservative extension.** It changes no outcome of an expression that does
not mention the name. If the name is new, it changes no outcome but the failure for that name. And
no expression loses its value. -/
theorem evaluate_define (A : Arithmetic Float) (expression : String) :
    (¬ Mentions expression name →
      table'.evaluate A expression = table.evaluate A expression) ∧
    (table.lookup name = none → table.evaluate A expression ≠ .error (.unknownSymbol name) →
      table'.evaluate A expression = table.evaluate A expression) ∧
    ∀ v, table.evaluate A expression = .ok v → ∃ v', table'.evaluate A expression = .ok v' :=
  ⟨built.evaluate_define_of_not_mentions defined A,
    fun new h => built.evaluate_define_of_new defined new h,
    fun _ h => built.exists_value_define defined h⟩

end Built

/-- A definition of `ma` does not reach into a name that is written apart, and an operand that is
missing before `ma` is missing still. -/
theorem evaluate_define_ma :
    ∃ table, standard.define "ma" 7 = .ok table ∧
      table.evaluate .ieee "m ax(1, 2" = standard.evaluate .ieee "m ax(1, 2" ∧
      table.evaluate .ieee "1 + + ma" = standard.evaluate .ieee "1 + + ma" ∧
      ∃ v, table.evaluate .ieee "m ax(1, 2)" = .ok v := by
  obtain ⟨table, defined⟩ : ∃ table, standard.define "ma" 7 = .ok table := ⟨_, rfl⟩
  have unmentioned : ¬ Mentions "m ax(1, 2" "ma" := by
    rintro ⟨source, lexeme, hs, hmem, htext⟩
    obtain rfl : "(max(1,2)" = source := Except.ok.inj hs
    revert htext
    revert lexeme
    decide +kernel
  refine ⟨table, defined, (Built.evaluate_define .standard defined .ieee _).1 unmentioned,
    (Built.evaluate_define .standard defined .ieee _).2.1 (by decide +kernel) (by decide +kernel),
    (Built.evaluate_define .standard defined .ieee _).2.2 2 (by decide +kernel)⟩

end SymbolTable

end Reckoner
