import Reckoner.Proofs.Table.Definition
import Reckoner.Proofs.Text.NumeralGrammar

/-!
# What a word stands for

A word is whatever stands between two delimiters. On the tables that can be built there are three
kinds of it, and no word is of two (`Built.isWord`): a numeral of the grammar, which begins with a
digit and has no sign, an entry of the table, and a word that stands for nothing. Definitions do not
move a word out of the first kind, since what begins with a digit is refused as a name.
-/

namespace Reckoner

namespace SymbolTable

open Numeral (plainGrammar)

/-- The kinds of words. -/
inductive IsWord (table : SymbolTable) (word : String) : Prop where
  | number {value : Float} (htokens : table.tokens word = [.ok (.literal value)])
      (hmem : word.toList ∈ plainGrammar) (hl : table.lookup word = none)
  | entry {symbol : Symbol Float} (htokens : table.tokens word = [.ok symbol])
      (hmem : word.toList ∉ plainGrammar) (hl : table.lookup word = some symbol)
  | unknown (htokens : table.tokens word = [.error (.unknownSymbol word)])
      (hmem : word.toList ∉ plainGrammar) (hl : table.lookup word = none)

theorem tokens_of_plain (table : SymbolTable) {word : String} (hne : word ≠ "")
    (plain : ∀ c ∈ word.toList, Lexeme.isDelimiter c = false) :
    table.tokens word = [table.classify (.word word.toList)] := by
  have hnil : word.toList ≠ [] := fun h => hne (String.toList_eq_nil_iff.1 h)
  rw [tokens, Lexeme.split_word hnil plain, List.map_singleton]

theorem isDigit_of_mem_plainGrammar {text : List Char} (h : text ∈ plainGrammar) :
    text.head?.any Char.isDigit = true := by
  obtain ⟨d, rest, rfl, hd⟩ := Numeral.exists_head_of_mem_plainGrammar h
  exact hd

/-- Behind a digit and without delimiters, the numerals that can be read are the plain ones. -/
theorem isSome_readFloat?_of_digit {text : List Char} (hd : text.head?.any Char.isDigit = true)
    (plain : ∀ c ∈ text, Lexeme.isDelimiter c = false) :
    (readFloat? text).isSome = true ↔ text ∈ plainGrammar := by
  have plus : '+' ∉ text := fun h => Bool.noConfusion (plain _ h)
  have minus : '-' ∉ text := fun h => Bool.noConfusion (plain _ h)
  cases text with
  | nil => cases hd
  | cons d rest => rw [Numeral.isSome_readFloat?_iff, Numeral.mem_grammar_iff hd plus minus]

namespace Built

variable {table : SymbolTable} (built : table.Built) {word : String}

include built

section Digit

variable (hd : word.toList.head?.any Char.isDigit = true)

include hd

theorem lookup_of_digit : table.lookup word = none := by
  rw [Option.eq_none_iff_forall_ne_some]
  intro symbol hl
  rcases built.isEntry_of_lookup hl with hname | ⟨hc, hname⟩
  · obtain ⟨c, hc, hdigit⟩ := hname.head
    rw [Option.mem_def.1 hc, Option.any_some, hdigit] at hd
    cases hd
  · rw [hname, List.head?_cons, Option.any_some] at hd
    rw [Lexeme.isDelimiter_of_isDigit hd] at hc
    cases hc

theorem define_of_digit (value : Float) :
    table.define word value = .error (.invalidName word) := by
  rw [define_eq_invalid_iff, built.lookup_of_digit hd]
  refine ⟨fun symbol h => ?_, ?_⟩
  · cases h
  · cases hhead : word.toList.head? with
    | none => rw [admits, hhead]; rfl
    | some c =>
      rw [hhead, Option.any_some] at hd
      rw [admits, hhead, Option.any_some, hd]
      rfl

end Digit

section Plain

variable (hne : word ≠ "") (plain : ∀ c ∈ word.toList, Lexeme.isDelimiter c = false)

include hne plain

/-- Every word is of one of the kinds. The first character says which place decides. -/
theorem isWord : table.IsWord word := by
  have htokens := tokens_of_plain table hne plain
  have htext : (Lexeme.word word.toList).text = word := String.ofList_toList
  cases hd : (Lexeme.word word.toList).chars.head?.any Char.isDigit with
  | true =>
    have hl := built.lookup_of_digit hd
    have hread : (readFloat? word.toList).isSome = true ↔ word.toList ∈ plainGrammar :=
      isSome_readFloat?_of_digit hd plain
    rw [classify_of_digit hd, htext, Lexeme.chars] at htokens
    cases hr : readFloat? word.toList with
    | none =>
      rw [hr] at hread htokens
      exact .unknown htokens (fun h => Bool.noConfusion (hread.2 h)) hl
    | some value =>
      rw [hr] at hread htokens
      exact .number htokens (hread.1 rfl) hl
  | false =>
    have hmem : word.toList ∉ plainGrammar := fun h =>
      Bool.noConfusion (hd.symm.trans (isDigit_of_mem_plainGrammar h))
    rw [classify_of_not_digit hd, htext] at htokens
    cases hl : table.lookup word with
    | none =>
      rw [hl] at htokens
      exact .unknown htokens hmem hl
    | some symbol =>
      rw [hl] at htokens
      exact .entry htokens hmem hl

theorem exists_literal_iff :
    (∃ value, table.tokens word = [.ok (.literal value)]) ↔ word.toList ∈ plainGrammar := by
  rcases built.isWord hne plain with
    ⟨htokens, hmem, -⟩ | ⟨htokens, hmem, hl⟩ | ⟨htokens, hmem, -⟩
  · exact iff_of_true ⟨_, htokens⟩ hmem
  · refine iff_of_false ?_ hmem
    rintro ⟨value, h⟩
    rw [htokens] at h
    cases h
    exact built.lookup_ne_literal word value hl
  · refine iff_of_false ?_ hmem
    rintro ⟨value, h⟩
    rw [htokens] at h
    cases h

theorem lookup_eq_some_iff (symbol : Symbol Float) : table.lookup word = some symbol ↔
    table.tokens word = [.ok symbol] ∧ ∀ value, symbol ≠ .literal value := by
  constructor
  · intro h
    refine ⟨built.tokens_of_lookup h, fun value heq => ?_⟩
    exact built.lookup_ne_literal word value (heq ▸ h)
  · rintro ⟨h, hnot⟩
    rcases built.isWord hne plain with
      ⟨htokens, -, -⟩ | ⟨htokens, -, hl⟩ | ⟨htokens, -, -⟩ <;> rw [htokens] at h <;> cases h
    · exact absurd rfl (hnot _)
    · exact hl

theorem tokens_eq_error_iff (e : EvalError) : table.tokens word = [.error e] ↔
    word.toList ∉ plainGrammar ∧ table.lookup word = none ∧ e = .unknownSymbol word := by
  rcases built.isWord hne plain with
    ⟨htokens, hmem, hl⟩ | ⟨htokens, -, hl⟩ | ⟨htokens, hmem, hl⟩ <;> rw [htokens, hl]
  · simp [hmem]
  · simp
  · simp [hmem, eq_comm]

/-- **The exact kind of every word**: a number if and only if the plain grammar has it, an entry if
and only if it is a name of the table, and otherwise unknown as a whole. No name is a number, and no
definition can make it one. -/
theorem tokens_word :
    ((∃ value, table.tokens word = [.ok (.literal value)]) ↔ word.toList ∈ plainGrammar) ∧
    (∀ symbol, table.lookup word = some symbol ↔
      table.tokens word = [.ok symbol] ∧ ∀ value, symbol ≠ .literal value) ∧
    (∀ e, table.tokens word = [.error e] ↔
      word.toList ∉ plainGrammar ∧ table.lookup word = none ∧ e = .unknownSymbol word) ∧
    (word.toList ∈ plainGrammar → table.lookup word = none ∧
      ∀ value, table.define word value = .error (.invalidName word)) := by
  refine ⟨built.exists_literal_iff hne plain, built.lookup_eq_some_iff hne plain,
    built.tokens_eq_error_iff hne plain, fun hmem => ?_⟩
  have hd := isDigit_of_mem_plainGrammar hmem
  exact ⟨built.lookup_of_digit hd, built.define_of_digit hd⟩

end Plain

end Built

/-- A power of ten needs digits, a point does not, and a word does not stop where a numeral might. -/
theorem tokens_word_standard :
    "2.e3".toList ∈ plainGrammar ∧ "2.e".toList ∉ plainGrammar ∧
      standard.tokens "2.e" = [.error (.unknownSymbol "2.e")] ∧
      standard.define "2.e3" 1 = .error (.invalidName "2.e3") := by
  have plain : ∀ c ∈ "2.e3".toList, Lexeme.isDelimiter c = false :=
    List.forall_iff_forall_mem.1 (by decide)
  have plain' : ∀ c ∈ "2.e".toList, Lexeme.isDelimiter c = false :=
    List.forall_iff_forall_mem.1 (by decide)
  obtain ⟨number, -, -, never⟩ := Built.standard.tokens_word (by decide) plain
  obtain ⟨-, -, unknown, -⟩ := Built.standard.tokens_word (by decide) plain'
  have hmem := number.1 ⟨_, rfl⟩
  exact ⟨hmem, ((unknown _).1 rfl).1, rfl, (never hmem).2 1⟩

end SymbolTable

end Reckoner
