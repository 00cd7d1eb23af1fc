import Reckoner.Proofs.Table.Contents

/-!
# The delimiters of a table

What ends a word is said in three places: a table is asked about one character
(`SymbolTable.isDelimiter`), it lists all its delimiters (`SymbolTable.delimiters`), and the lexer
has a fixed class (`Lexeme.isDelimiter`). The first two look at the same entries, so they agree on
every table (`mem_delimiters_iff`). The third agrees with them on the tables that can be built,
since definitions bind names without delimiters only. So all these tables have one list of
delimiters (`Built.delimiters_eq`), and no entry of a table is split by one
(`Built.delimiters_agree`).
-/

namespace Reckoner

theorem Lexeme.split_singleton_eq_delimiter_iff {c : Char} :
    split [c] = [delimiter c] ↔ isDelimiter c = true := by
  cases hc : isDelimiter c with
  | true => simp [split_delimiter hc]
  | false => simp [split_word (List.cons_ne_nil c []) (by simpa using hc)]

namespace SymbolTable

variable {table : SymbolTable}

theorem singleChar?_eq_some_iff {name : String} {c : Char} :
    singleChar? name = some c ↔ name = String.ofList [c] := by
  rw [← String.toList_inj, String.toList_ofList, singleChar?]
  constructor
  · intro h
    split at h
    · next d hd =>
      cases h
      exact hd
    · cases h
  · intro h
    rw [h]

/-- A table lists the characters that it takes for delimiters. -/
theorem mem_delimiters_iff {c : Char} : c ∈ table.delimiters ↔ table.isDelimiter c = true := by
  rw [delimiters, List.mem_filterMap, isDelimiter, Option.any_eq_true, Char.toString,
    String.singleton_eq_ofList]
  constructor
  · rintro ⟨⟨name, symbol⟩, hentry, hchar⟩
    dsimp only at hchar
    split at hchar
    · next hs =>
      rw [singleChar?_eq_some_iff] at hchar
      subst hchar
      exact ⟨symbol, mem_symbols_iff.1 hentry, hs⟩
    · cases hchar
  · rintro ⟨symbol, hl, hs⟩
    refine ⟨(String.ofList [c], symbol), mem_symbols_iff.2 hl, ?_⟩
    dsimp only
    rw [if_pos hs, singleChar?_eq_some_iff]

/-- The delimiters are in ascending order, as names of one character are ordered like these. -/
theorem pairwise_delimiters (table : SymbolTable) : table.delimiters.Pairwise (· < ·) := by
  refine List.Pairwise.filterMap _ ?_ Std.TreeMap.ordered_keys_toList
  rintro ⟨name, symbol⟩ ⟨name', symbol'⟩ h c hc c' hc'
  dsimp only at h hc hc'
  split at hc
  · split at hc'
    · rw [singleChar?_eq_some_iff] at hc hc'
      subst hc hc'
      have hlt : String.ofList [c] < String.ofList [c'] := compareOfLessAndEq_eq_lt.1 h
      rw [String.lt_iff, String.toList_ofList, String.toList_ofList,
        List.cons_lt_cons_iff] at hlt
      exact hlt.resolve_right fun h => List.not_lt_nil _ h.2
    · cases hc'
  · cases hc

theorem nodup_delimiters (table : SymbolTable) : table.delimiters.Nodup :=
  (pairwise_delimiters table).imp Char.ne_of_lt

namespace Built

variable (built : table.Built)

include built

/-- All tables have the same delimiters. -/
theorem delimiters_eq {table' : SymbolTable} (built' : table'.Built) :
    table.delimiters = table'.delimiters := by
  have perm : table.delimiters.Perm table'.delimiters := by
    refine (List.perm_ext_iff_of_nodup (nodup_delimiters _) (nodup_delimiters _)).2 fun c => ?_
    rw [mem_delimiters_iff, mem_delimiters_iff, built.isDelimiter_eq, built'.isDelimiter_eq]
  exact perm.eq_of_pairwise (fun _ _ _ _ h h' => absurd h' (Char.lt_asymm h))
    (pairwise_delimiters _) (pairwise_delimiters _)

/-- **The three accounts of what ends a word agree.** A table takes a character for a delimiter if
it lists it, and that is if the lexer makes a delimiter of it. The list is in strictly ascending
order, and the same for all tables. So every entry of a table is one token by itself, which stands
for what the entry says. -/
theorem delimiters_agree :
    (∀ c, table.isDelimiter c = true ↔ c ∈ table.delimiters) ∧
    (∀ c, c ∈ table.delimiters ↔ Lexeme.split [c] = [.delimiter c]) ∧
    table.delimiters.Pairwise (· < ·) ∧
    (∀ table' : SymbolTable, table'.Built → table'.delimiters = table.delimiters) ∧
    ∀ name symbol, table.lookup name = some symbol → table.tokens name = [.ok symbol] := by
  refine ⟨fun c => mem_delimiters_iff.symm, fun c => ?_, pairwise_delimiters table,
    fun table' built' => built'.delimiters_eq built, fun name symbol => built.tokens_of_lookup⟩
  rw [mem_delimiters_iff, built.isDelimiter_eq, Lexeme.split_singleton_eq_delimiter_iff]

end Built

/-- A sign that is no operator of the language can be bound, here to what is not a number. It is one
token then, and no delimiter. -/
theorem delimiters_agree_sign :
    ∃ table, standard.define "÷" Binary64.nan = .ok table ∧ table.isDelimiter '÷' = false ∧
      '-' ∈ table.delimiters ∧ table.delimiters = standard.delimiters ∧
      table.tokens "÷" = [.ok (.named Binary64.nan)] := by
  obtain ⟨table, defined⟩ : ∃ table, standard.define "÷" Binary64.nan = .ok table := ⟨_, rfl⟩
  obtain ⟨asked, listed, -, same, token⟩ := (Built.standard.define defined).delimiters_agree
  refine ⟨table, defined, ?_, (listed '-').2 rfl, (same _ .standard).symm, token _ _ ?_⟩
  · rw [← Bool.not_eq_true, asked, listed]
    decide
  · rw [lookup_define defined, if_pos rfl]

end SymbolTable

end Reckoner
