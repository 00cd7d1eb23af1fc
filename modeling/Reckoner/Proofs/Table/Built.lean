import Reckoner.Token

/-!
# Tables that can be built

A table is built from the standard one by definitions (`SymbolTable.Built`). Definitions bind
variables only, so the marks, operators and functions of every such table are the standard ones
(`Built.lookup_of_mem`), and every variable has a name that an expression can mention as one word
(`Built.isName_of_lookup`).
-/

namespace Reckoner

namespace SymbolTable

/-- Tables that definitions make out of the standard one. -/
inductive Built : SymbolTable → Prop where
  | standard : Built standard
  | define {table table' : SymbolTable} {name : String} {value : Float} (built : Built table)
      (defined : table.define name value = .ok table') : Built table'

/-! ## The standard table -/

theorem nodup_standardEntries : (standardEntries.map Prod.fst).Nodup := by
  decide

theorem lookup_standard {name : String} {symbol : Symbol Float}
    (h : (name, symbol) ∈ standardEntries) : standard.lookup name = some symbol := by
  refine Std.TreeMap.getElem?_ofList_of_mem (Std.ReflCmp.compare_self) ?_ h
  refine (List.pairwise_map.1 nodup_standardEntries).imp fun hne heq => ?_
  exact hne (Std.LawfulEqCmp.eq_of_compare heq)

theorem mem_of_lookup_standard {name : String} {symbol : Symbol Float}
    (h : standard.lookup name = some symbol) : (name, symbol) ∈ standardEntries := by
  by_cases hc : (standardEntries.map Prod.fst).contains name
  · obtain ⟨⟨name', symbol'⟩, hm, rfl⟩ := List.mem_map.1 (List.contains_iff_mem.1 hc)
    have := (lookup_standard hm).symm.trans h
    cases this
    exact hm
  · rw [Bool.not_eq_true] at hc
    have : standard.lookup name = none := Std.TreeMap.getElem?_ofList_of_contains_eq_false hc
    rw [this] at h
    cases h

theorem mem_builtins (f : Builtin) : f ∈ Builtin.all := by
  cases f with
  | unary f => cases f <;> decide
  | binary f => cases f <;> decide

/-- The entries of the standard table by what they stand for. -/
inductive StandardEntry : String → Symbol Float → Prop where
  | parenLeft : StandardEntry "(" .parenLeft
  | parenRight : StandardEntry ")" .parenRight
  | comma : StandardEntry "," .comma
  | operator (op : Operator) : StandardEntry op.char.toString (.operator op)
  | function (f : Builtin) : StandardEntry f.name (.function f)
  | named {name : String} {value : Float} (h : (name, value) ∈ standardVariables) :
      StandardEntry name (.named value)

theorem mem_standardEntries_iff {name : String} {symbol : Symbol Float} :
    (name, symbol) ∈ standardEntries ↔ StandardEntry name symbol := by
  simp only [standardEntries, List.mem_append, List.mem_map]
  constructor
  · rintro (((h | ⟨op, -, h⟩) | ⟨f, -, h⟩) | ⟨entry, hm, h⟩)
    · simp only [List.mem_cons, List.not_mem_nil, or_false] at h
      rcases h with h | h | h
      · cases h
        exact .parenLeft
      · cases h
        exact .parenRight
      · cases h
        exact .comma
    · cases h
      exact .operator op
    · cases h
      exact .function f
    · cases h
      exact .named hm
  · intro h
    cases h with
    | parenLeft | parenRight | comma => simp
    | operator op => exact .inl (.inl (.inr ⟨op, by cases op <;> decide, rfl⟩))
    | function f => exact .inl (.inr ⟨f, mem_builtins f, rfl⟩)
    | named h => exact .inr ⟨_, h, rfl⟩

theorem StandardEntry.name_eq {name : String} {f : Builtin}
    (h : StandardEntry name (.function f)) : name = f.name := by
  cases h
  rfl

theorem mem_standardVariables_of_lookup {name : String} {value : Float}
    (h : standard.lookup name = some (.named value)) : (name, value) ∈ standardVariables := by
  cases mem_standardEntries_iff.1 (mem_of_lookup_standard h) with
  | named h => exact h

/-! ## Names -/

/-- Whether an expression can mention `name` as one word that is no number: a first character that
is no digit, and nothing that is removed or ends a word. -/
structure IsName (name : List Char) : Prop where
  head : ∃ c ∈ name.head?, c.isDigit = false
  isBlank : ∀ c ∈ name, Reckoner.isBlank c = false
  isDelimiter : ∀ c ∈ name, Lexeme.isDelimiter c = false

theorem IsName.ne_nil {name : List Char} (h : IsName name) : name ≠ [] := by
  rintro rfl
  obtain ⟨c, hc, -⟩ := h.head
  cases hc

theorem IsName.filter_isDelimiter {name : List Char} (h : IsName name) :
    name.filter Lexeme.isDelimiter = [] := by
  refine List.filter_eq_nil_iff.2 fun c hc => ?_
  simp [h.isDelimiter c hc]

theorem isName_of_all {name : List Char}
    (h : (name.head?.any (fun c => !c.isDigit) &&
      name.all fun c => !Reckoner.isBlank c && !Lexeme.isDelimiter c) = true) : IsName name := by
  simp only [Bool.and_eq_true, List.all_eq_true, Bool.not_eq_true', Option.any_eq_true] at h
  exact ⟨h.1, fun c hc => (h.2 c hc).1, fun c hc => (h.2 c hc).2⟩

theorem isName_builtin (f : Builtin) : IsName f.name.toList := by
  refine isName_of_all ?_
  cases f with
  | unary f => cases f <;> decide
  | binary f => cases f <;> decide

theorem isName_of_mem_standardVariables {name : String} {value : Float}
    (h : (name, value) ∈ standardVariables) : IsName name.toList := by
  simp only [standardVariables, List.mem_cons, List.not_mem_nil, or_false, Prod.mk.injEq] at h
  rcases h with ⟨rfl, -⟩ | ⟨rfl, -⟩ | ⟨rfl, -⟩ <;> exact isName_of_all (by decide)

/-! ## One definition -/

theorem define_eq_ok {table table' : SymbolTable} {name : String} {value : Float}
    (h : table.define name value = .ok table') :
    (∀ symbol, table.lookup name = some symbol → ∃ v, symbol = .named v) ∧
      table.admits name.toList = true ∧
      table' = ⟨table.entries.insert name (.named value)⟩ := by
  have inserted : ∀ {b : Bool}, (if b = true then
      Except.ok (⟨table.entries.insert name (.named value)⟩ : SymbolTable)
      else .error (DefineError.invalidName name)) = .ok table' →
      b = true ∧ table' = ⟨table.entries.insert name (.named value)⟩ := by
    rintro (_ | _) h <;> cases h
    exact ⟨rfl, rfl⟩
  unfold define at h
  split at h
  · next heq => exact ⟨fun symbol hs => (by rw [heq] at hs; cases hs), inserted h⟩
  · next v heq => exact ⟨fun symbol hs => ⟨v, by rw [heq] at hs; cases hs; rfl⟩, inserted h⟩
  · cases h

theorem lookup_define {table table' : SymbolTable} {name : String} {value : Float}
    (h : table.define name value = .ok table') (other : String) :
    table'.lookup other = if name = other then some (.named value) else table.lookup other := by
  obtain ⟨-, -, rfl⟩ := define_eq_ok h
  simp only [lookup, Std.TreeMap.getElem?_insert, Std.compare_eq_iff_eq]

/-- To bind a variable anew makes no new name. -/
theorem isSome_lookup_define {table table' : SymbolTable} {name : String} {value : Float}
    (h : table.define name value = .ok table') (bound : (table.lookup name).isSome = true)
    (other : String) : (table.lookup other).isSome = (table'.lookup other).isSome := by
  rw [lookup_define h]
  split
  · next heq => rw [← heq, bound, Option.isSome_some]
  · rfl

/-! ## Every table -/

namespace Built

variable {table : SymbolTable} (built : table.Built)

include built

/-- The standard entries that are not variables are in every table. -/
theorem lookup_of_mem {name : String} {symbol : Symbol Float}
    (h : (name, symbol) ∈ standardEntries) (hs : ∀ value, symbol ≠ .named value) :
    table.lookup name = some symbol := by
  induction built with
  | standard => exact lookup_standard h
  | define _ defined ih =>
    rw [lookup_define defined, if_neg]
    · exact ih
    · rintro rfl
      obtain ⟨value, rfl⟩ := (define_eq_ok defined).1 _ ih
      exact hs value rfl

/-- What a table has beside variables is in the standard one. -/
theorem mem_of_lookup {name : String} {symbol : Symbol Float}
    (h : table.lookup name = some symbol) :
    (∃ value, symbol = .named value) ∨ (name, symbol) ∈ standardEntries := by
  induction built with
  | standard => exact .inr (mem_of_lookup_standard h)
  | define _ defined ih =>
    rw [lookup_define defined] at h
    split at h
    · cases h
      exact .inl ⟨_, rfl⟩
    · exact ih h

/-- What is no variable in one table is the same in any other. -/
theorem lookup_of_ne_named {other : SymbolTable} (built' : other.Built) {name : String}
    {symbol : Symbol Float} (hs : ∀ value, symbol ≠ .named value)
    (h : table.lookup name = some symbol) : other.lookup name = some symbol := by
  rcases built.mem_of_lookup h with ⟨value, rfl⟩ | hmem
  · exact absurd rfl (hs value)
  · exact built'.lookup_of_mem hmem hs

/-- What is looked up is no number written out. -/
theorem lookup_ne_literal (name : String) (value : Float) :
    table.lookup name ≠ some (.literal value) := by
  intro h
  rcases built.mem_of_lookup h with ⟨_, ⟨⟩⟩ | hmem
  cases mem_standardEntries_iff.1 hmem

theorem lookup_parenLeft : table.lookup "(" = some .parenLeft :=
  built.lookup_of_mem (mem_standardEntries_iff.2 .parenLeft) (by simp)

theorem lookup_parenRight : table.lookup ")" = some .parenRight :=
  built.lookup_of_mem (mem_standardEntries_iff.2 .parenRight) (by simp)

theorem lookup_comma : table.lookup "," = some .comma :=
  built.lookup_of_mem (mem_standardEntries_iff.2 .comma) (by simp)

theorem lookup_operator (op : Operator) : table.lookup op.char.toString = some (.operator op) :=
  built.lookup_of_mem (mem_standardEntries_iff.2 (.operator op)) (by simp)

theorem lookup_function (f : Builtin) : table.lookup f.name = some (.function f) :=
  built.lookup_of_mem (mem_standardEntries_iff.2 (.function f)) (by simp)

/-- The delimiters of the lexer stand for marks and operators. -/
theorem exists_lookup_delimiter {c : Char} (h : Lexeme.isDelimiter c = true) :
    ∃ symbol, table.lookup (String.ofList [c]) = some symbol ∧ symbol.isDelimiter = true := by
  simp only [Lexeme.isDelimiter, Lexeme.delimiters, List.contains_iff_mem, List.mem_cons,
    List.not_mem_nil, or_false] at h
  rcases h with rfl | rfl | rfl | rfl | rfl | rfl | rfl
  · exact ⟨_, built.lookup_operator .add, rfl⟩
  · exact ⟨_, built.lookup_operator .sub, rfl⟩
  · exact ⟨_, built.lookup_operator .mul, rfl⟩
  · exact ⟨_, built.lookup_operator .div, rfl⟩
  · exact ⟨_, built.lookup_comma, rfl⟩
  · exact ⟨_, built.lookup_parenLeft, rfl⟩
  · exact ⟨_, built.lookup_parenRight, rfl⟩

theorem isDelimiter_of_isDelimiter {c : Char} (h : Lexeme.isDelimiter c = true) :
    table.isDelimiter c = true := by
  obtain ⟨symbol, hl, hs⟩ := built.exists_lookup_delimiter h
  rw [SymbolTable.isDelimiter, Char.toString, String.singleton_eq_ofList, hl]
  exact hs

theorem isName_of_admits {name : List Char} (h : table.admits name = true) : IsName name := by
  refine isName_of_all ?_
  simp only [admits, Bool.and_eq_true, List.all_eq_true] at h ⊢
  refine ⟨h.1, fun c hc => ⟨(h.2 c hc).1, ?_⟩⟩
  have hdel := (h.2 c hc).2
  cases hc : Lexeme.isDelimiter c with
  | false => rfl
  | true =>
    rw [built.isDelimiter_of_isDelimiter hc] at hdel
    cases hdel

/-- **Every variable has a name** that an expression can mention. -/
theorem isName_of_lookup {name : String} {value : Float}
    (h : table.lookup name = some (.named value)) : IsName name.toList := by
  induction built with
  | standard => exact isName_of_mem_standardVariables (mem_standardVariables_of_lookup h)
  | @define _ _ defined _ before hd ih =>
    rw [lookup_define hd] at h
    split at h
    · next heq =>
      subst heq
      exact before.isName_of_admits (define_eq_ok hd).2.1
    · exact ih h

end Built

end SymbolTable

end Reckoner
