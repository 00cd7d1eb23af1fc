import Reckoner.Proofs.Table.Contents

/-!
# The variables of a table

The variables of a table that can be built (`bindings`) can be bound in any other, and bound in the
standard table they make it again (`agree_defineAll_bindings`): the other entries are in every table,
and no variable of the standard table is ever lost.
-/

namespace Reckoner

namespace SymbolTable

/-- The variables of a table, in the order of their names. -/
def bindings (table : SymbolTable) : List (String × Float) :=
  table.symbols.filterMap fun (name, symbol) =>
    match symbol with
    | .named value => some (name, value)
    | _ => none

theorem mem_bindings_iff {table : SymbolTable} {name : String} {value : Float} :
    (name, value) ∈ table.bindings ↔ table.lookup name = some (.named value) := by
  rw [bindings, List.mem_filterMap, ← mem_symbols_iff]
  constructor
  · rintro ⟨⟨name', symbol⟩, hm, heq⟩
    cases symbol <;> cases heq
    exact hm
  · intro hm
    exact ⟨_, hm, rfl⟩

theorem built_of_defineAll {definitions : List (String × Float)} {table : SymbolTable}
    (defined : standard.defineAll definitions = .ok table) : table.Built := by
  obtain ⟨-, run⟩ := defineAll_eq_ok defined
  exact run ▸ Built.standard.attemptAll definitions

/-- What holds for the names of a table and for those that are bound holds for all names after. -/
theorem forall_name_defineAll {P : String → Prop} {table table' : SymbolTable}
    {definitions : List (String × Float)}
    (names : ∀ name symbol, table.lookup name = some symbol → P name)
    (bound : ∀ definition ∈ definitions, P definition.1)
    (defined : table.defineAll definitions = .ok table') :
    ∀ name symbol, table'.lookup name = some symbol → P name := by
  induction definitions generalizing table with
  | nil =>
    cases defined
    exact names
  | cons definition definitions ih =>
    obtain ⟨name, value⟩ := definition
    rw [defineAll_cons] at defined
    cases first : table.define name value with
    | error reason =>
      rw [first] at defined
      cases defined
    | ok next =>
      rw [first] at defined
      refine ih (fun other symbol hl => ?_)
        (fun definition hd => bound definition (List.mem_cons_of_mem _ hd)) defined
      rw [lookup_define first] at hl
      split at hl
      · next heq => exact heq ▸ bound _ List.mem_cons_self
      · exact names other symbol hl

namespace Built

variable {table : SymbolTable} (built : table.Built)

include built

theorem isBlank_of_lookup {name : String} {symbol : Symbol Float}
    (h : table.lookup name = some symbol) : ∀ c ∈ name.toList, isBlank c = false := by
  rcases built.isEntry_of_lookup h with hname | ⟨hc, hname⟩
  · exact hname.isBlank
  · rw [hname]
    simpa using Lexeme.isBlank_of_isDelimiter hc

theorem exists_define_of_lookup {name : String} {value : Float}
    (h : table.lookup name = some (.named value)) :
    ∃ table', table.define name value = .ok table' := by
  have admitted := built.admits_of_isName (built.isName_of_lookup h)
  refine ⟨⟨table.entries.insert name (.named value)⟩, ?_⟩
  unfold SymbolTable.define
  rw [h]
  exact if_pos admitted

/-- The variables of one table can be bound in any other. -/
theorem exists_defineAll_of_subset {table' : SymbolTable} (built' : table'.Built)
    {definitions : List (String × Float)} (h : definitions ⊆ table.bindings) :
    ∃ table'', table'.defineAll definitions = .ok table'' := by
  induction definitions generalizing table' with
  | nil => exact ⟨table', rfl⟩
  | cons definition definitions ih =>
    obtain ⟨name, value⟩ := definition
    obtain ⟨head, tail⟩ := List.cons_subset.1 h
    have accepted : table'.refusal name value = none := by
      rw [← built.refusal_eq built' name value]
      exact refusal_eq_none_iff.2 (built.exists_define_of_lookup (mem_bindings_iff.1 head))
    obtain ⟨next, first⟩ := refusal_eq_none_iff.1 accepted
    obtain ⟨table'', rest⟩ := ih (.define built' first) tail
    exact ⟨table'', by rw [defineAll_cons, first]; exact rest⟩

end Built

/-- The variables of a table that definitions made make it again. -/
theorem agree_defineAll_bindings {definitions : List (String × Float)} {table table' : SymbolTable}
    (defined : standard.defineAll definitions = .ok table)
    (again : standard.defineAll table.bindings = .ok table') : Agree table table' := by
  obtain ⟨-, rfl⟩ := defineAll_eq_ok defined
  obtain ⟨all, rfl⟩ := defineAll_eq_ok again
  have built := Built.standard.attemptAll definitions
  intro name
  rw [lookup_attemptAll standard (bindings _), all]
  -- whichever binding of `name` comes last, the first table has the same
  cases last : (standard.attemptAll definitions).bindings.reverse.lookup name with
  | some value =>
    obtain ⟨front, back, split, -⟩ := List.lookup_eq_some_iff.1 last
    have hm : (name, value) ∈ (standard.attemptAll definitions).bindings := by
      rw [← List.mem_reverse, split]
      simp
    rw [mem_bindings_iff.1 hm]
    rfl
  | none =>
    have unbound : ∀ value, (standard.attemptAll definitions).lookup name ≠ some (.named value) := by
      intro value hl
      have := List.lookup_eq_none_iff.1 last _ (List.mem_reverse.2 (mem_bindings_iff.2 hl))
      simp at this
    rw [Option.map_none, Option.none_or]
    cases hl : (standard.attemptAll definitions).lookup name with
    | none =>
      -- a name that stands for nothing now has never stood for anything
      rw [lookup_attemptAll] at hl
      exact (Option.or_eq_none_iff.1 hl).2.symm
    | some symbol =>
      refine (built.lookup_of_ne_named .standard (fun value heq => ?_) hl).symm
      exact unbound value (heq ▸ hl)

end SymbolTable

end Reckoner
