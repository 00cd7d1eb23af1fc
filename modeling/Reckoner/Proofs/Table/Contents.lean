import Mathlib.Data.Finset.Card
import Reckoner.Proofs.Table.Definition
import Reckoner.Proofs.Text.ByteOrder

/-!
# What a table holds after a run of definitions

A run attempts one definition after another, and goes on from the same table where one is refused
(`attemptAll`). Whether an attempt is refused, and why, can be told from its name and the standard
table (`Built.refusal_eq`), although it is the table of the moment that is asked: no run changes
what is reserved or what ends a word. So the accepted attempts of a run are a filter of it
(`Built.accepted_eq_filter`), a name stands for the value that was given to it last
(`lookup_attemptAll`), and everything else about the table follows from what its names stand for.
-/

namespace Reckoner

namespace SymbolTable

/-- Why a definition is refused, if it is. -/
def refusal (table : SymbolTable) (name : String) (value : Float) : Option DefineError :=
  match table.define name value with
  | .ok _ => none
  | .error reason => some reason

/-- The table after an attempt at a definition, which is the same as before if it is refused. -/
def attempt (table : SymbolTable) (definition : String × Float) : SymbolTable :=
  match table.define definition.1 definition.2 with
  | .ok table' => table'
  | .error _ => table

/-- The table after a run of attempts. -/
def attemptAll (table : SymbolTable) (definitions : List (String × Float)) : SymbolTable :=
  definitions.foldl attempt table

/-- The attempts of a run that are accepted when their turn comes. -/
def accepted (table : SymbolTable) : List (String × Float) → List (String × Float)
  | [] => []
  | definition :: definitions =>
    match table.refusal definition.1 definition.2 with
    | none => definition :: (table.attempt definition).accepted definitions
    | some _ => (table.attempt definition).accepted definitions

/-- The names that stand for something. -/
def names (table : SymbolTable) : Finset String :=
  (table.symbols.map Prod.fst).toFinset

/-- Two tables say the same of every word. -/
def Agree (table table' : SymbolTable) : Prop :=
  ∀ name, table.lookup name = table'.lookup name

section One

variable {table : SymbolTable} {name : String} {value : Float}

theorem refusal_eq_some_iff {reason : DefineError} :
    table.refusal name value = some reason ↔ table.define name value = .error reason := by
  unfold refusal
  split <;> simp_all

theorem refusal_eq_none_iff :
    table.refusal name value = none ↔ ∃ table', table.define name value = .ok table' := by
  unfold refusal
  split <;> simp_all

theorem attempt_of_define {table' : SymbolTable} (h : table.define name value = .ok table') :
    table.attempt (name, value) = table' := by
  rw [attempt, h]

theorem attempt_of_refusal {reason : DefineError} (h : table.refusal name value = some reason) :
    table.attempt (name, value) = table := by
  rw [attempt, refusal_eq_some_iff.1 h]

theorem lookup_attempt (other : String) :
    (table.attempt (name, value)).lookup other =
      if table.refusal name value = none ∧ name = other then some (.named value)
      else table.lookup other := by
  cases h : table.refusal name value with
  | none =>
    obtain ⟨table', defined⟩ := refusal_eq_none_iff.1 h
    rw [attempt_of_define defined, lookup_define defined]
    simp
  | some reason =>
    rw [attempt_of_refusal h]
    simp

end One

/-! ## Refusals do not depend on the run -/

namespace Built

variable {table : SymbolTable} (built : table.Built)

include built

theorem attempt (definition : String × Float) : (table.attempt definition).Built := by
  rw [SymbolTable.attempt]
  split
  · next defined => exact .define built defined
  · exact built

theorem attemptAll (definitions : List (String × Float)) :
    (table.attemptAll definitions).Built := by
  induction definitions generalizing table with
  | nil => exact built
  | cons definition definitions ih => exact ih (built.attempt definition)

section Refusal

variable {table' : SymbolTable} (built' : table'.Built)

include built'

theorem define_error {name : String} {value value' : Float} {reason : DefineError}
    (h : table.define name value = .error reason) : table'.define name value' = .error reason := by
  rcases define_cases table name value with ⟨_, h'⟩ | h' | h'
  · rw [h'] at h
    cases h
  · rw [h'] at h
    cases h
    exact built'.define_eq_invalid_iff_not_mentionable.2
      (built.define_eq_invalid_iff_not_mentionable.1 h')
  · rw [h'] at h
    cases h
    obtain ⟨symbol, hl, hs⟩ := define_eq_reserved_iff.1 h'
    exact define_eq_reserved_iff.2 ⟨symbol, built.lookup_of_ne_named built' hs hl, hs⟩

/-- **The name alone decides** whether a definition is refused, and why. -/
theorem refusal_eq (name : String) (value value' : Float) :
    table.refusal name value = table'.refusal name value' := by
  refine Option.ext fun reason => ?_
  rw [refusal_eq_some_iff, refusal_eq_some_iff]
  exact ⟨built.define_error built', built'.define_error built⟩

end Refusal

theorem accepted_eq_filter (definitions : List (String × Float)) :
    table.accepted definitions =
      definitions.filter fun definition =>
        (SymbolTable.standard.refusal definition.1 definition.2).isNone := by
  induction definitions generalizing table with
  | nil => rfl
  | cons definition definitions ih =>
    rw [accepted, List.filter_cons, ih (built.attempt definition),
      built.refusal_eq .standard _ _ definition.2]
    split <;> simp_all

theorem exists_named_of_mem_accepted {definitions : List (String × Float)} {name : String}
    {value : Float} (h : (name, value) ∈ table.accepted definitions) {symbol : Symbol Float}
    (hl : SymbolTable.standard.lookup name = some symbol) : ∃ v, symbol = .named v := by
  rw [built.accepted_eq_filter, List.mem_filter, Option.isNone_iff_eq_none] at h
  obtain ⟨table', defined⟩ := refusal_eq_none_iff.1 h.2
  exact (define_eq_ok defined).1 symbol hl

end Built

/-! ## The last accepted attempt wins -/

theorem lookup_attemptAll (table : SymbolTable) (definitions : List (String × Float))
    (name : String) : (table.attemptAll definitions).lookup name =
      (((table.accepted definitions).reverse.lookup name).map .named).or (table.lookup name) := by
  induction definitions generalizing table with
  | nil => rfl
  | cons definition definitions ih =>
    obtain ⟨other, value⟩ := definition
    rw [attemptAll, List.foldl_cons, ← attemptAll, ih, lookup_attempt, accepted]
    cases table.refusal other value with
    | some reason => simp
    | none =>
      rw [List.reverse_cons, List.lookup_append, List.lookup_cons, List.lookup_nil]
      cases (accepted _ definitions).reverse.lookup name with
      | some last => rfl
      | none =>
        by_cases h : name = other
        · simp [h]
        · rw [if_neg (fun hand => h hand.2.symm), beq_false_of_ne h]
          rfl

/-! ## Runs without a refusal -/

/-- A run that is not cut short accepts every attempt. -/
theorem defineAll_eq_ok {table table' : SymbolTable} {definitions : List (String × Float)}
    (h : table.defineAll definitions = .ok table') :
    table.accepted definitions = definitions ∧ table.attemptAll definitions = table' := by
  induction definitions generalizing table with
  | nil =>
    cases h
    exact ⟨rfl, rfl⟩
  | cons definition definitions ih =>
    obtain ⟨name, value⟩ := definition
    rw [defineAll_cons] at h
    cases defined : table.define name value with
    | error reason =>
      rw [defined] at h
      cases h
    | ok next =>
      rw [defined] at h
      obtain ⟨haccepted, hall⟩ := ih h
      rw [accepted, attemptAll, List.foldl_cons, refusal_eq_none_iff.2 ⟨next, defined⟩,
        attempt_of_define defined]
      exact ⟨congrArg _ haccepted, hall⟩

/-! ## Entries and their order -/

section Entries

variable {table table' : SymbolTable}

theorem mem_symbols_iff {name : String} {symbol : Symbol Float} :
    (name, symbol) ∈ table.symbols ↔ table.lookup name = some symbol :=
  Std.TreeMap.mem_toList_iff_getElem?_eq_some

theorem mem_names_iff {name : String} : name ∈ table.names ↔ (table.lookup name).isSome = true := by
  rw [names, List.mem_toFinset, List.mem_map, Option.isSome_iff_exists]
  constructor
  · rintro ⟨⟨name, symbol⟩, hm, rfl⟩
    exact ⟨symbol, mem_symbols_iff.1 hm⟩
  · rintro ⟨symbol, hl⟩
    exact ⟨(name, symbol), mem_symbols_iff.2 hl, rfl⟩

theorem pairwise_symbols (table : SymbolTable) :
    (table.symbols.map Prod.fst).Pairwise fun name name' => utf8Bytes name < utf8Bytes name' := by
  refine List.pairwise_map.2 (Std.TreeMap.ordered_keys_toList.imp fun {entry entry'} h => ?_)
  exact utf8Bytes_lt (compareOfLessAndEq_eq_lt.1 h)

theorem nodup_symbols (table : SymbolTable) : (table.symbols.map Prod.fst).Nodup := by
  refine (pairwise_symbols table).imp fun h heq => ?_
  rw [heq] at h
  exact List.lt_irrefl _ h

theorem card_names (table : SymbolTable) : table.names.card = table.size := by
  rw [names, List.toFinset_card_of_nodup (nodup_symbols table), List.length_map, symbols, size,
    Std.TreeMap.length_toList]

theorem Agree.equiv (h : Agree table table') : table.entries.Equiv table'.entries :=
  .of_forall_constGet?_eq h

theorem Agree.symbols_eq (h : Agree table table') : table.symbols = table'.symbols :=
  h.equiv.toList_eq

theorem Agree.size_eq (h : Agree table table') : table.size = table'.size :=
  h.equiv.size_eq

end Entries

/-! ## Attempts on different names -/

namespace Built

variable {table : SymbolTable} (built : table.Built)

include built

section Commute

variable {table' : SymbolTable} (built' : table'.Built)

include built'

theorem agree_attempt (h : Agree table table') (definition : String × Float) :
    Agree (table.attempt definition) (table'.attempt definition) := by
  intro name
  rw [lookup_attempt, lookup_attempt, built.refusal_eq built' _ _ definition.2, h]

theorem agree_attemptAll (h : Agree table table') (definitions : List (String × Float)) :
    Agree (table.attemptAll definitions) (table'.attemptAll definitions) := by
  induction definitions generalizing table table' with
  | nil => exact h
  | cons definition definitions ih =>
    exact ih (built.attempt definition) (built'.attempt definition)
      (built.agree_attempt built' h definition)

end Commute

theorem agree_attempt_attempt {definition definition' : String × Float}
    (hne : definition.1 ≠ definition'.1) :
    Agree ((table.attempt definition).attempt definition')
      ((table.attempt definition').attempt definition) := by
  intro name
  rw [lookup_attempt, lookup_attempt, lookup_attempt, lookup_attempt,
    (built.attempt definition).refusal_eq built _ _ definition'.2,
    (built.attempt definition').refusal_eq built _ _ definition.2]
  by_cases h : definition.1 = name
  · have h' : definition'.1 ≠ name := fun h' => hne (h.trans h'.symm)
    simp [h']
  · simp [h]

end Built

theorem attemptAll_append (table : SymbolTable) (front back : List (String × Float)) :
    table.attemptAll (front ++ back) = (table.attemptAll front).attemptAll back :=
  List.foldl_append

theorem agree_attemptAll_swap {definition definition' : String × Float}
    (hne : definition.1 ≠ definition'.1) (front back : List (String × Float)) :
    Agree (standard.attemptAll (front ++ definition :: definition' :: back))
      (standard.attemptAll (front ++ definition' :: definition :: back)) := by
  rw [attemptAll_append, attemptAll_append]
  have built := Built.standard.attemptAll front
  exact ((built.attempt _).attempt _).agree_attemptAll ((built.attempt _).attempt _)
    (built.agree_attempt_attempt hne) back

/-! ## The number of entries -/

theorem names_attemptAll (table : SymbolTable) (definitions : List (String × Float)) :
    (table.attemptAll definitions).names =
      ((table.accepted definitions).map Prod.fst).toFinset ∪ table.names := by
  ext name
  rw [Finset.mem_union, mem_names_iff, mem_names_iff, lookup_attemptAll, Option.isSome_or,
    Option.isSome_map, Bool.or_eq_true, List.lookup_isSome_iff, List.mem_toFinset, List.mem_map]
  simp only [List.mem_reverse, beq_iff_eq, @eq_comm _ name]

theorem mem_names_standard_iff {definitions : List (String × Float)} {name : String}
    (h : name ∈ (standard.accepted definitions).map Prod.fst) :
    name ∈ standard.names ↔ name ∈ standardVariables.map Prod.fst := by
  obtain ⟨⟨name, value⟩, hm, rfl⟩ := List.mem_map.1 h
  rw [mem_names_iff, Option.isSome_iff_exists]
  constructor
  · rintro ⟨symbol, hl⟩
    obtain ⟨v, rfl⟩ := Built.standard.exists_named_of_mem_accepted hm hl
    exact List.mem_map.2 ⟨_, mem_standardVariables_of_lookup hl, rfl⟩
  · intro hv
    obtain ⟨⟨other, v⟩, hentry, heq⟩ := List.mem_map.1 hv
    change other = name at heq
    subst heq
    exact ⟨.named v, lookup_standard (mem_standardEntries_iff.2 (.named hentry))⟩

theorem size_attemptAll (definitions : List (String × Float)) :
    (standard.attemptAll definitions).size = standard.size +
      (((standard.accepted definitions).map Prod.fst).toFinset \
        (standardVariables.map Prod.fst).toFinset).card := by
  have hdiff : ((standard.accepted definitions).map Prod.fst).toFinset \ standard.names =
      ((standard.accepted definitions).map Prod.fst).toFinset \
        (standardVariables.map Prod.fst).toFinset := by
    ext name
    rw [Finset.mem_sdiff, Finset.mem_sdiff, List.mem_toFinset, List.mem_toFinset]
    exact and_congr_right fun hm => not_congr (mem_names_standard_iff hm)
  rw [← card_names, ← card_names, names_attemptAll, ← hdiff, Nat.add_comm,
    Finset.card_sdiff_add_card]

/-! ## The contents -/

/-- **What a table holds after any run of definitions** from the standard table. The name alone
decides about every attempt; the last accepted value of a name is what the name stands for, and all
others stand for what they stood for before, the reserved ones always; the entries are those that
can be looked up, each once and in the order of their bytes, and their number grows with each new
name. Two attempts on different names can change places. -/
theorem attemptAll_exact (definitions : List (String × Float)) :
    (∀ name value value', (standard.attemptAll definitions).refusal name value =
      standard.refusal name value') ∧
    (∀ name, (standard.attemptAll definitions).lookup name =
      (((standard.accepted definitions).reverse.lookup name).map .named).or
        (standard.lookup name)) ∧
    (∀ name symbol, standard.lookup name = some symbol → symbol.isReserved = true →
      (standard.attemptAll definitions).lookup name = some symbol) ∧
    (standard.attemptAll definitions).size = standard.size +
      (((standard.accepted definitions).map Prod.fst).toFinset \
        (standardVariables.map Prod.fst).toFinset).card ∧
    (∀ name symbol, (name, symbol) ∈ (standard.attemptAll definitions).symbols ↔
      (standard.attemptAll definitions).lookup name = some symbol) ∧
    ((standard.attemptAll definitions).symbols.map Prod.fst).Nodup ∧
    ((standard.attemptAll definitions).symbols.map Prod.fst).Pairwise
      (fun name name' => utf8Bytes name < utf8Bytes name') ∧
    ∀ front definition definition' back,
      definitions = front ++ definition :: definition' :: back →
      definition.1 ≠ definition'.1 →
      Agree (standard.attemptAll definitions)
          (standard.attemptAll (front ++ definition' :: definition :: back)) ∧
        (standard.attemptAll definitions).symbols =
          (standard.attemptAll (front ++ definition' :: definition :: back)).symbols ∧
        (standard.attemptAll definitions).size =
          (standard.attemptAll (front ++ definition' :: definition :: back)).size := by
  have built : (standard.attemptAll definitions).Built := Built.standard.attemptAll definitions
  refine ⟨fun name value value' => built.refusal_eq .standard name value value',
    lookup_attemptAll standard definitions, ?_, size_attemptAll definitions,
    fun _ _ => mem_symbols_iff, nodup_symbols _, pairwise_symbols _, ?_⟩
  · intro name symbol hl hs
    exact Built.standard.lookup_of_ne_named built ((Built.standard.isReserved_of_lookup hl).1 hs) hl
  · rintro front definition definition' back rfl hne
    have agree := agree_attemptAll_swap hne front back
    exact ⟨agree, agree.symbols_eq, agree.size_eq⟩

/-- Of four attempts one is refused, one binds a name that is new, one binds that name again and one
binds a standard variable. -/
theorem attemptAll_exact_rate :
    (standard.attemptAll [("rate", 0.25), ("sin", 1), ("rate", 0.5), ("x", 2)]).refusal "sin" 3 =
      some (.reserved "sin") ∧
    (standard.attemptAll [("rate", 0.25), ("sin", 1), ("rate", 0.5), ("x", 2)]).lookup "rate" =
      some (.named 0.5) ∧
    (standard.attemptAll [("rate", 0.25), ("sin", 1), ("rate", 0.5), ("x", 2)]).lookup "sin" =
      some (.function (.unary .sin)) ∧
    (standard.attemptAll [("rate", 0.25), ("sin", 1), ("rate", 0.5), ("x", 2)]).size =
      standard.size + 1 ∧
    (standard.attemptAll [("rate", 0.25), ("sin", 1), ("rate", 0.5), ("x", 2)]).symbols =
      (standard.attemptAll [("rate", 0.25), ("sin", 1), ("x", 2), ("rate", 0.5)]).symbols := by
  obtain ⟨refusal, lookup, reserved, size, -, -, -, swap⟩ :=
    attemptAll_exact [("rate", 0.25), ("sin", 1), ("rate", 0.5), ("x", 2)]
  have accepted : standard.accepted [("rate", 0.25), ("sin", 1), ("rate", 0.5), ("x", 2)] =
      [("rate", 0.25), ("rate", 0.5), ("x", 2)] := rfl
  rw [accepted] at lookup size
  refine ⟨?_, ?_, ?_, ?_, ?_⟩
  · exact (refusal "sin" 3 1).trans rfl
  · exact (lookup "rate").trans rfl
  · exact reserved "sin" _ (Built.standard.lookup_function (.unary .sin)) rfl
  · exact size.trans rfl
  · exact (swap [("rate", 0.25), ("sin", 1)] ("rate", 0.5) ("x", 2) [] rfl (by decide)).2.1

end SymbolTable

end Reckoner
