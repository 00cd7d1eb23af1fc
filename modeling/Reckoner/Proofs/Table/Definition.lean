import Reckoner.Ieee
import Reckoner.Proofs.Text.Delimiters

/-!
# Which names can be bound

A definition is accepted exactly for the names that an evaluation could look up and that do not
stand for something else already (`Built.define_exact`). Three conditions on characters meet in
this: what is removed before an expression is split, what ends a word, and what the table says about
a name. On the tables that can be built the last two are one (`Built.isDelimiter_eq`). So a name
that is refused as invalid is no lexeme of any expression (`mentionable_iff`), and one that is
reserved is a single token already (`Built.tokens_of_lookup`).
-/

namespace Reckoner

/-- Whether a symbol is anything but a number. -/
def Symbol.isReserved {α : Type} : Symbol α → Bool
  | parenLeft | parenRight | comma | operator _ | function _ => true
  | literal _ | named _ => false

namespace SymbolTable

/-- Some expression has the name for a lexeme that is looked up, being no number. -/
def Mentionable (name : String) : Prop :=
  ∃ expression source lexeme, prepare expression = .ok source ∧
    lexeme ∈ Lexeme.split source.toList ∧ lexeme.text = name ∧
    lexeme.chars.head?.any Char.isDigit = false

/-- The name by itself is one token, and it is no number. -/
def Reserves (table : SymbolTable) (name : String) : Prop :=
  ∃ symbol, table.tokens name = [.ok symbol] ∧ symbol.isReserved = true

/-- What a table can have an entry for: a name, or a delimiter by itself. -/
inductive IsEntry (text : List Char) : Prop where
  | name (h : IsName text)
  | delimiter {c : Char} (hc : Lexeme.isDelimiter c = true) (h : text = [c])

/-! ## Lexemes of expressions -/

theorem mem_kept_of_mem_source {expression source : String} (hs : prepare expression = .ok source)
    {c : Char} (hc : c ∈ source.toList) (hplain : Lexeme.isDelimiter c = false) :
    c ∈ kept expression := by
  rw [prepare_eq] at hs
  split at hs
  · cases hs
  · cases hs
    rw [String.toList_ofList, List.cons_append, List.mem_cons, List.mem_append,
      List.mem_singleton] at hc
    rcases hc with rfl | hc | rfl
    · cases hplain
    · exact hc
    · cases hplain

theorem prepare_of_isBlank {name : String} (hne : name.toList ≠ [])
    (h : ∀ c ∈ name.toList, isBlank c = false) :
    prepare name = .ok (String.ofList ('(' :: name.toList ++ [')'])) := by
  rw [prepare_eq, kept_eq_self h, if_neg hne]

theorem split_group {text : List Char} :
    Lexeme.split ('(' :: text ++ [')']) =
      .delimiter '(' :: (Lexeme.split text ++ [.delimiter ')']) := by
  rw [List.cons_append, Lexeme.split_delimiter rfl,
    Lexeme.split_append_of_head (by rintro c ⟨⟩; rfl), Lexeme.split_delimiter rfl,
    Lexeme.split_nil]

theorem Mentionable.isEntry {name : String} (h : Mentionable name) : IsEntry name.toList := by
  obtain ⟨expression, source, lexeme, hs, hmem, rfl, hdigit⟩ := h
  rw [Lexeme.text, String.toList_ofList]
  cases Lexeme.isPiece_of_mem_split lexeme hmem with
  | delimiter hc => exact .delimiter hc rfl
  | @word chars hne hplain =>
    refine .name ⟨?_, fun c hc => ?_, hplain⟩
    · obtain ⟨c, rest, rfl⟩ := List.exists_cons_of_ne_nil hne
      exact ⟨c, rfl, hdigit⟩
    · have hsource : c ∈ source.toList := by
        rw [← Lexeme.flatMap_chars_split source.toList]
        exact List.mem_flatMap.2 ⟨_, hmem, hc⟩
      have hkept := mem_kept_of_mem_source hs hsource (hplain c hc)
      simpa using (List.mem_filter.1 hkept).2

/-- A name that is one lexeme by itself is mentioned by itself. -/
theorem mentionable_of_split {name : String} {lexeme : Lexeme}
    (hblank : ∀ c ∈ name.toList, isBlank c = false) (hsplit : Lexeme.split name.toList = [lexeme])
    (hdigit : lexeme.chars.head?.any Char.isDigit = false) : Mentionable name := by
  have hne : name.toList ≠ [] := by
    intro hnil
    rw [hnil] at hsplit
    cases hsplit
  have hchars := Lexeme.flatMap_chars_split name.toList
  rw [hsplit, List.flatMap_singleton] at hchars
  refine ⟨name, _, lexeme, prepare_of_isBlank hne hblank, ?_, ?_, hdigit⟩
  · rw [String.toList_ofList, split_group, hsplit]
    simp
  · rw [Lexeme.text, hchars, String.ofList_toList]

theorem mentionable_of_isName {name : String} (h : IsName name.toList) : Mentionable name := by
  refine mentionable_of_split h.isBlank (Lexeme.split_word h.ne_nil h.isDelimiter) ?_
  obtain ⟨c, hc, hdigit⟩ := h.head
  rw [Lexeme.chars, Option.mem_def.1 hc]
  exact hdigit

theorem mentionable_of_delimiter {name : String} {c : Char} (hc : Lexeme.isDelimiter c = true)
    (hname : name.toList = [c]) : Mentionable name := by
  have hblank : ∀ d ∈ name.toList, isBlank d = false := by
    rw [hname]
    simpa using Lexeme.isBlank_of_isDelimiter hc
  have hsplit : Lexeme.split name.toList = [.delimiter c] := by
    rw [hname, Lexeme.split_delimiter hc, Lexeme.split_nil]
  exact mentionable_of_split hblank hsplit (Lexeme.isDigit_of_isDelimiter hc)

/-- **What can be looked up** is what a table can have an entry for. -/
theorem mentionable_iff {name : String} : Mentionable name ↔ IsEntry name.toList := by
  constructor
  · exact Mentionable.isEntry
  · rintro (h | ⟨hc, hname⟩)
    · exact mentionable_of_isName h
    · exact mentionable_of_delimiter hc hname

/-! ## What a definition does -/

section Define

variable {table : SymbolTable} {name : String} {value : Float}

theorem define_eq_reserved_iff : table.define name value = .error (.reserved name) ↔
    ∃ symbol, table.lookup name = some symbol ∧ ∀ v, symbol ≠ .named v := by
  unfold define
  split
  · next heq => rw [heq]; split <;> simp
  · next v heq => rw [heq]; split <;> simp
  · next symbol hne heq => simpa [heq] using hne

theorem define_eq_invalid_iff : table.define name value = .error (.invalidName name) ↔
    (∀ symbol, table.lookup name = some symbol → ∃ v, symbol = .named v) ∧
      table.admits name.toList = false := by
  unfold define
  split
  · next heq => rw [heq]; split <;> simp_all
  · next v heq => rw [heq]; split <;> simp_all
  · next symbol hne heq =>
    constructor
    · intro h
      cases h
    · rintro ⟨h, -⟩
      obtain ⟨v, rfl⟩ := h symbol heq
      exact absurd rfl (hne v)

theorem define_cases (table : SymbolTable) (name : String) (value : Float) :
    (∃ table', table.define name value = .ok table') ∨
      table.define name value = .error (.invalidName name) ∨
      table.define name value = .error (.reserved name) := by
  unfold define
  split
  · split <;> simp
  · split <;> simp
  · simp

end Define

theorem StandardEntry.isEntry {name : String} {symbol : Symbol Float}
    (h : StandardEntry name symbol) : IsEntry name.toList := by
  cases h with
  | parenLeft => exact .delimiter (c := '(') rfl rfl
  | parenRight => exact .delimiter (c := ')') rfl rfl
  | comma => exact .delimiter (c := ',') rfl rfl
  | operator op => exact .delimiter op.isDelimiter_char (String.toList_singleton op.char)
  | function f => exact .name (isName_builtin f)
  | named h => exact .name (isName_of_mem_standardVariables h)

namespace Built

variable {table : SymbolTable} (built : table.Built) {name : String}

include built

/-- Delimiters of a table are the delimiters of every text. -/
theorem isDelimiter_eq (c : Char) : table.isDelimiter c = Lexeme.isDelimiter c := by
  cases hc : Lexeme.isDelimiter c with
  | true => exact built.isDelimiter_of_isDelimiter hc
  | false =>
    rw [SymbolTable.isDelimiter, Char.toString, String.singleton_eq_ofList]
    cases hl : table.lookup (String.ofList [c]) with
    | none => rfl
    | some symbol =>
      have spelled := built.filter_isDelimiter_of_lookup hl
      rw [String.toList_ofList, List.filter_cons, if_neg (by simp [hc]), List.filter_nil] at spelled
      rw [Option.any_some, Symbol.isDelimiter_eq_isSome, Option.toList_eq_nil_iff.1 spelled.symm]
      rfl

theorem admits_of_isName (h : IsName name.toList) : table.admits name.toList = true := by
  obtain ⟨c, hc, hdigit⟩ := h.head
  rw [admits, Option.mem_def.1 hc, Option.any_some, hdigit]
  simp only [Bool.not_false, Bool.true_and, List.all_eq_true, Bool.and_eq_true, Bool.not_eq_true',
    built.isDelimiter_eq]
  exact fun c hc => ⟨h.isBlank c hc, h.isDelimiter c hc⟩

theorem isEntry_of_lookup {symbol : Symbol Float} (h : table.lookup name = some symbol) :
    IsEntry name.toList := by
  rcases built.mem_of_lookup h with ⟨value, rfl⟩ | hmem
  · exact .name (built.isName_of_lookup h)
  · exact (mem_standardEntries_iff.1 hmem).isEntry

/-- Every entry of a table is one token. -/
theorem tokens_of_lookup {symbol : Symbol Float} (h : table.lookup name = some symbol) :
    table.tokens name = [.ok symbol] := by
  change table.scan name.toList = _
  rcases built.isEntry_of_lookup h with hname | ⟨hc, hname⟩
  · exact scan_name hname h
  · rw [← String.ofList_toList (s := name), hname] at h
    rw [hname, scan_delimiter hc, classify_delimiter hc h, scan_nil]

omit built in
/-- One token that is no number is an entry of the table. -/
theorem lookup_of_tokens {symbol : Symbol Float} (h : table.tokens name = [.ok symbol])
    (hs : symbol.isReserved = true) : table.lookup name = some symbol := by
  obtain ⟨lexeme, hchars, hclass⟩ := exists_lexeme_of_tokens h
  rcases classify_eq_ok hclass with ⟨-, value, -, rfl⟩ | ⟨-, hl⟩
  · cases hs
  · rwa [Lexeme.text, hchars, String.ofList_toList] at hl

theorem isReserved_of_lookup {symbol : Symbol Float} (h : table.lookup name = some symbol) :
    symbol.isReserved = true ↔ ∀ value, symbol ≠ .named value := by
  cases symbol with
  | literal value => exact absurd h (built.lookup_ne_literal name value)
  | named value => simp [Symbol.isReserved]
  | parenLeft | parenRight | comma | operator _ | function _ => simp [Symbol.isReserved]

theorem mentionable_of_lookup {symbol : Symbol Float} (h : table.lookup name = some symbol) :
    Mentionable name :=
  mentionable_iff.2 (built.isEntry_of_lookup h)

/-! ## Exact acceptance -/

section Cases

variable {value : Float}

/-- A name that is accepted stands for its value alone. -/
theorem define_ok {table' : SymbolTable} (h : table.define name value = .ok table')
    (A : Arithmetic Float) :
    (∃ source, prepare name = .ok source ∧
      table'.tokens source = [.ok .parenLeft, .ok (.named value), .ok .parenRight]) ∧
    table'.evaluate A name = .ok value := by
  have hname := built.isName_of_admits (define_eq_ok h).2.1
  have built' := Built.define built h
  have hs := prepare_of_isBlank hname.ne_nil hname.isBlank
  have hl : table'.lookup name = some (.named value) := by
    rw [lookup_define h, if_pos rfl]
  have hscan : table'.scan (kept name) = [.ok (.named value)] := by
    rw [kept_eq_self hname.isBlank, scan_name hname hl]
  refine ⟨⟨_, hs, ?_⟩, ?_⟩
  · rw [built'.tokens_of_prepare hs, hscan]
    rfl
  · rw [built'.evaluate_of_prepare hs, script, hscan]
    rfl

theorem define_eq_reserved_iff_reserves :
    table.define name value = .error (.reserved name) ↔ table.Reserves name := by
  rw [define_eq_reserved_iff]
  constructor
  · rintro ⟨symbol, hl, hne⟩
    exact ⟨symbol, built.tokens_of_lookup hl, (built.isReserved_of_lookup hl).2 hne⟩
  · rintro ⟨symbol, htokens, hs⟩
    have hl := lookup_of_tokens htokens hs
    exact ⟨symbol, hl, (built.isReserved_of_lookup hl).1 hs⟩

theorem define_eq_invalid_iff_not_mentionable :
    table.define name value = .error (.invalidName name) ↔ ¬ Mentionable name := by
  constructor
  · intro h hmention
    obtain ⟨hvariable, hadmits⟩ := define_eq_invalid_iff.1 h
    rcases mentionable_iff.1 hmention with hname | ⟨hc, hname⟩
    · rw [built.admits_of_isName hname] at hadmits
      cases hadmits
    · obtain ⟨symbol, hl, hs⟩ := built.exists_lookup_delimiter hc
      rw [← hname, String.ofList_toList] at hl
      obtain ⟨v, rfl⟩ := hvariable symbol hl
      cases hs
  · intro hnever
    rcases define_cases table name value with ⟨table', h⟩ | h | h
    · have hname := built.isName_of_admits (define_eq_ok h).2.1
      exact absurd (mentionable_of_isName hname) hnever
    · exact h
    · obtain ⟨symbol, hl, -⟩ := define_eq_reserved_iff.1 h
      exact absurd (built.mentionable_of_lookup hl) hnever

/-- **The names that can be bound** are those that an evaluation can look up and that are not
reserved. Any other name is refused for the one reason that holds for it, and one that is bound
stands for its value. -/
theorem define_exact (A : Arithmetic Float) (name : String) (value : Float) :
    (∀ table', table.define name value = .ok table' →
      (∃ source, prepare name = .ok source ∧
        table'.tokens source = [.ok .parenLeft, .ok (.named value), .ok .parenRight]) ∧
      table'.evaluate A name = .ok value) ∧
    (table.define name value = .error (.invalidName name) ↔ ¬ Mentionable name) ∧
    (table.define name value = .error (.reserved name) ↔ table.Reserves name) ∧
    ((∃ table', table.define name value = .ok table') ↔
      Mentionable name ∧ ¬ table.Reserves name) ∧
    ((∃ table', table.define name value = .ok table') ∨
      table.define name value = .error (.invalidName name) ∨
      table.define name value = .error (.reserved name)) := by
  have invalid : table.define name value = .error (.invalidName name) ↔ ¬ Mentionable name :=
    built.define_eq_invalid_iff_not_mentionable
  have reserved : table.define name value = .error (.reserved name) ↔ table.Reserves name :=
    built.define_eq_reserved_iff_reserves
  have outcomes := define_cases table name value
  refine ⟨fun table' h => built.define_ok h A, invalid, reserved, ?_, outcomes⟩
  constructor
  · rintro ⟨table', h⟩
    refine ⟨not_not.1 fun hnever => ?_, fun hreserves => ?_⟩
    · rw [invalid.2 hnever] at h
      cases h
    · rw [reserved.2 hreserves] at h
      cases h
  · rintro ⟨hmention, hfree⟩
    rcases outcomes with hok | h | h
    · exact hok
    · exact absurd hmention (invalid.1 h)
    · exact absurd (reserved.1 h) hfree

end Cases

end Built

/-- A blank or a leading digit keeps a name out of every expression, a decimal digit of another
script does not, and the parentheses are reserved. -/
theorem define_exact_standard :
    ¬ Mentionable "a b" ∧ ¬ Mentionable "2nd" ∧ standard.Reserves "(" ∧
      ∃ table', standard.define "٣" 0.5 = .ok table' ∧ table'.evaluate .ieee "٣" = .ok 0.5 := by
  obtain ⟨-, blank, -⟩ := Built.standard.define_exact .ieee "a b" 0.5
  obtain ⟨-, digit, -⟩ := Built.standard.define_exact .ieee "2nd" 0.5
  obtain ⟨-, -, paren, -⟩ := Built.standard.define_exact .ieee "(" 0.5
  obtain ⟨bound, -⟩ := Built.standard.define_exact .ieee "٣" 0.5
  exact ⟨blank.1 rfl, digit.1 rfl, paren.1 rfl, _, rfl, (bound _ rfl).2⟩

end SymbolTable

end Reckoner
