import Mathlib.Data.List.Chain
import Mathlib.Data.List.Infix
import Reckoner.Proofs.Evaluation

/-!
# A text is its lexemes

Splitting a text into lexemes can be undone, and in one way only. The lexemes of a text are
`Alternating`: delimiters and words without any, where no word follows another. Every list of that
kind is what its own characters split into (`Lexeme.split_flatMap_chars`), so
texts and alternating lists are in bijection (`Lexeme.split_eq_iff`).

A text is read by two rules, one for delimiters and one for words, and the longest match counts
(`Lexeme.Begins`). At every place but the end exactly one lexeme is found in this way, so reading
never gets stuck (`Lexeme.exists_begins`).
-/

namespace Reckoner

namespace Lexeme

/-- Whether a lexeme is a word. -/
def isWord : Lexeme → Bool
  | word _ => true
  | delimiter _ => false

/-- Delimiters and words without any, and no word behind another. -/
structure Alternating (lexemes : List Lexeme) : Prop where
  pieces : ∀ lexeme ∈ lexemes, IsPiece lexeme
  apart : lexemes.IsChain fun first second => first.isWord = true → second.isWord = false

/-- The longest lexeme that a text begins with. -/
structure Begins (text : List Char) (lexeme : Lexeme) : Prop where
  piece : IsPiece lexeme
  start : lexeme.chars <+: text
  longest : ∀ other, IsPiece other → other.chars <+: text →
    other.chars.length ≤ lexeme.chars.length

theorem IsPiece.exists_cons {lexeme : Lexeme} (h : IsPiece lexeme) :
    ∃ c rest, lexeme.chars = c :: rest ∧ isDelimiter c = !lexeme.isWord := by
  cases h with
  | delimiter hc => exact ⟨_, [], rfl, hc⟩
  | word hne plain =>
    obtain ⟨c, rest, rfl⟩ := List.exists_cons_of_ne_nil hne
    exact ⟨c, rest, rfl, plain c List.mem_cons_self⟩

theorem IsPiece.eq_of_chars {lexeme other : Lexeme} (h : IsPiece lexeme) (h' : IsPiece other)
    (heq : lexeme.chars = other.chars) : lexeme = other := by
  obtain ⟨c, rest, hchars, hc⟩ := h.exists_cons
  obtain ⟨c', rest', hchars', hc'⟩ := h'.exists_cons
  obtain ⟨rfl, -⟩ := List.cons.inj (hchars.symm.trans (heq.trans hchars'))
  rw [hc] at hc'
  match lexeme, other with
  | .word _, .word _ => exact congrArg Lexeme.word heq
  | .delimiter _, .delimiter _ => exact congrArg Lexeme.delimiter (List.cons.inj heq).1
  | .word _, .delimiter _ | .delimiter _, .word _ => cases hc'

/-! ## Alternating lists -/

theorem alternating_nil : Alternating [] := ⟨by simp, .nil⟩

theorem alternating_cons {lexeme : Lexeme} {lexemes : List Lexeme} :
    Alternating (lexeme :: lexemes) ↔ IsPiece lexeme ∧ Alternating lexemes ∧
      ∀ next ∈ lexemes.head?, lexeme.isWord = true → next.isWord = false := by
  constructor
  · rintro ⟨pieces, apart⟩
    obtain ⟨piece, pieces⟩ := List.forall_mem_cons.1 pieces
    obtain ⟨next, apart⟩ := List.isChain_cons.1 apart
    exact ⟨piece, ⟨pieces, apart⟩, next⟩
  · rintro ⟨piece, ⟨pieces, apart⟩, next⟩
    exact ⟨List.forall_mem_cons.2 ⟨piece, pieces⟩, List.isChain_cons.2 ⟨next, apart⟩⟩

/-- What comes behind a word of an alternating list begins with a delimiter. -/
theorem isDelimiter_of_head {lexemes : List Lexeme} (h : Alternating lexemes)
    (hw : ∀ next ∈ lexemes.head?, next.isWord = false) :
    ∀ c ∈ (lexemes.flatMap chars).head?, isDelimiter c = true := by
  intro c hc
  cases lexemes with
  | nil => cases hc
  | cons next lexemes =>
    obtain ⟨d, rest, hchars, hd⟩ := (alternating_cons.1 h).1.exists_cons
    rw [List.flatMap_cons, hchars] at hc
    cases hc
    rw [hd, hw next rfl]
    rfl

theorem alternating_consChar (c : Char) {lexemes : List Lexeme} (h : Alternating lexemes) :
    Alternating (consChar c lexemes) := by
  by_cases hc : isDelimiter c = true
  · rw [consChar_delimiter hc]
    exact alternating_cons.2 ⟨.delimiter hc, h, fun _ _ hw => by cases hw⟩
  · rw [Bool.not_eq_true] at hc
    have single : IsPiece (word [c]) := .word (by simp) (by simpa using hc)
    match lexemes, h with
    | [], h =>
      rw [consChar_new hc (by simp)]
      exact alternating_cons.2 ⟨single, h, by simp⟩
    | delimiter d :: rest, h =>
      rw [consChar_new hc (by simp)]
      refine alternating_cons.2 ⟨single, h, ?_⟩
      rintro _ ⟨⟩ -
      rfl
    | word chars :: rest, h =>
      obtain ⟨piece, hrest, next⟩ := alternating_cons.1 h
      rw [consChar_word hc]
      refine alternating_cons.2 ⟨?_, hrest, next⟩
      cases piece with
      | word _ plain => exact .word (by simp) (List.forall_mem_cons.2 ⟨hc, plain⟩)

/-- A text falls apart into an alternating list. -/
theorem alternating_split (text : List Char) : Alternating (split text) := by
  induction text with
  | nil => exact alternating_nil
  | cons c text ih =>
    rw [split_cons]
    exact alternating_consChar c ih

/-- **The characters of an alternating list** split into that list again. -/
theorem split_flatMap_chars {lexemes : List Lexeme} (h : Alternating lexemes) :
    split (lexemes.flatMap chars) = lexemes := by
  induction lexemes with
  | nil => rfl
  | cons lexeme lexemes ih =>
    obtain ⟨piece, hrest, next⟩ := alternating_cons.1 h
    rw [List.flatMap_cons]
    cases piece with
    | delimiter hc =>
      rw [chars, List.singleton_append, split_delimiter hc, ih hrest]
    | word hne plain =>
      have head := isDelimiter_of_head hrest fun first hfirst => next first hfirst rfl
      rw [split_append_of_head head, ih hrest, chars, split_word hne plain]
      rfl

theorem split_eq_iff {text : List Char} {lexemes : List Lexeme} :
    split text = lexemes ↔ Alternating lexemes ∧ lexemes.flatMap chars = text := by
  constructor
  · rintro rfl
    exact ⟨alternating_split text, flatMap_chars_split text⟩
  · rintro ⟨h, rfl⟩
    exact split_flatMap_chars h

/-! ## Reading by the longest match -/

theorem prefix_append_cases {front left right : List Char} (h : front <+: left ++ right) :
    front <+: left ∨ ∃ more, more <+: right ∧ front = left ++ more := by
  rcases List.prefix_or_prefix_of_prefix h (List.prefix_append left right) with h' | h'
  · exact .inl h'
  · obtain ⟨more, rfl⟩ := h'
    exact .inr ⟨more, (List.prefix_append_right_inj left).1 h, rfl⟩

/-- The first lexeme of an alternating list is the longest that its characters begin with. -/
theorem begins_of_alternating {lexeme : Lexeme} {lexemes : List Lexeme}
    (h : Alternating (lexeme :: lexemes)) :
    Begins ((lexeme :: lexemes).flatMap chars) lexeme := by
  obtain ⟨piece, hrest, next⟩ := alternating_cons.1 h
  obtain ⟨first, rest, hchars, hfirst⟩ := piece.exists_cons
  rw [List.flatMap_cons]
  refine ⟨piece, List.prefix_append _ _, ?_⟩
  intro other hother hstart
  cases hother with
  | delimiter _ =>
    rw [hchars]
    exact Nat.succ_le_succ (Nat.zero_le _)
  | word _ plain =>
    rcases prefix_append_cases hstart with hshort | ⟨more, ⟨back, hback⟩, heq⟩
    · exact hshort.length_le
    cases more with
    | nil => rw [heq, List.append_nil]
    | cons c more =>
      -- the run would go on into what stands behind the lexeme, which a delimiter begins
      have hplain : ∀ d ∈ lexeme.chars ++ c :: more, isDelimiter d = false := heq ▸ plain
      have hword : lexeme.isWord = true := by
        rw [hplain first (by simp [hchars])] at hfirst
        simpa using hfirst.symm
      have head := isDelimiter_of_head hrest (fun other hmem => next other hmem hword) c
        (by rw [← hback]; rfl)
      rw [hplain c (by simp)] at head
      cases head

/-- **Reading never gets stuck**: any text that is not at its end begins with a lexeme, and goes on
behind the longest. -/
theorem exists_begins {text : List Char} (h : text ≠ []) :
    ∃ lexeme rest, Begins text lexeme ∧ text = lexeme.chars ++ rest ∧
      split text = lexeme :: split rest := by
  have all := flatMap_chars_split text
  have alternating := alternating_split text
  cases hs : split text with
  | nil =>
    rw [hs] at all
    exact absurd all.symm h
  | cons lexeme lexemes =>
    rw [hs] at all alternating
    refine ⟨lexeme, lexemes.flatMap chars, ?_, ?_, ?_⟩
    · rw [← all]
      exact begins_of_alternating alternating
    · rw [← all, List.flatMap_cons]
    · rw [split_flatMap_chars (alternating_cons.1 alternating).2.1]

theorem Begins.unique {text : List Char} {lexeme lexeme' : Lexeme} (h : Begins text lexeme)
    (h' : Begins text lexeme') : lexeme = lexeme' := by
  have hlen := Nat.le_antisymm (h'.longest _ h.piece h.start) (h.longest _ h'.piece h'.start)
  refine h.piece.eq_of_chars h'.piece ?_
  rw [List.prefix_iff_eq_take.1 h.start, List.prefix_iff_eq_take.1 h'.start, hlen]

end Lexeme

/-! ## Prepared texts -/

theorem exists_prepare_iff {expression : String} :
    (∃ source, prepare expression = .ok source) ↔ ∃ c ∈ expression.toList, isBlank c = false := by
  have some : kept expression ≠ [] ↔ ∃ c ∈ expression.toList, isBlank c = false := by
    rw [kept, Ne, List.filter_eq_nil_iff]
    simp
  rw [prepare_eq, ← some]
  split
  · next hkept =>
    refine iff_of_false ?_ (not_not_intro hkept)
    rintro ⟨_, ⟨⟩⟩
  · next hkept => exact iff_of_true ⟨_, rfl⟩ hkept

theorem flatMap_chars_of_prepare {expression source : String}
    (hs : prepare expression = .ok source) :
    (Lexeme.split source.toList).flatMap Lexeme.chars =
      '(' :: expression.toList.filter (fun c => !isBlank c) ++ [')'] := by
  rw [Lexeme.flatMap_chars_split]
  rw [prepare_eq] at hs
  split at hs
  · cases hs
  · cases hs
    rw [String.toList_ofList, kept]

/-- Blanks are all that preparing forgets. -/
theorem prepare_congr {expression expression' : String} (h : kept expression = kept expression') :
    prepare expression = prepare expression' := by
  rw [prepare_eq, prepare_eq, h]

namespace Lexeme

/-- **Texts and alternating lists of lexemes are the same thing.** At every place of a text one
lexeme is the longest that can be read. The lexemes of a text are the only alternating list of these
characters. What is not blank can be prepared, and of a prepared text these are all characters but
the blanks, in parentheses. So blanks make no difference to the tokens of an expression. -/
theorem split_bijective :
    (∀ text : List Char, text ≠ [] → ∃ lexeme rest, (∀ other, Begins text other ↔ other = lexeme) ∧
      text = lexeme.chars ++ rest ∧ split text = lexeme :: split rest) ∧
    (∀ (text : List Char) (lexemes : List Lexeme),
      split text = lexemes ↔ Alternating lexemes ∧ lexemes.flatMap chars = text) ∧
    (∀ expression : String, (∃ source, prepare expression = .ok source) ↔
      ∃ c ∈ expression.toList, isBlank c = false) ∧
    (∀ expression source : String, prepare expression = .ok source →
      (split source.toList).flatMap chars =
        '(' :: expression.toList.filter (fun c => !isBlank c) ++ [')']) ∧
    ∀ expression expression' : String,
      expression.toList.filter (fun c => !isBlank c) =
        expression'.toList.filter (fun c => !isBlank c) →
      ∀ table : SymbolTable,
        (prepare expression).map table.tokens = (prepare expression').map table.tokens := by
  refine ⟨?_, fun text lexemes => split_eq_iff, fun _ => exists_prepare_iff,
    fun _ _ => flatMap_chars_of_prepare, ?_⟩
  · intro text hne
    obtain ⟨lexeme, rest, hbegins, htext, hsplit⟩ := exists_begins hne
    refine ⟨lexeme, rest, fun other => ⟨fun h => h.unique hbegins, ?_⟩, htext, hsplit⟩
    rintro rfl
    exact hbegins
  · intro expression expression' h table
    rw [prepare_congr h]

/-- A space that does not break is removed like any other, and words of any script stay whole. -/
theorem split_bijective_blanks :
    (prepare "1\u00a02+ x").map SymbolTable.standard.tokens =
        (prepare "12\t+x").map SymbolTable.standard.tokens ∧
      (∃ source, prepare "1\u00a02+ x" = .ok source ∧
        (split source.toList).flatMap chars = ['(', '1', '2', '+', 'x', ')']) ∧
      split ['٣', ',', 'é', '.'] = [.word ['٣'], .delimiter ',', .word ['é', '.']] := by
  obtain ⟨-, unique, prepared, characters, blanks⟩ := split_bijective
  have alternating : Alternating [.word ['٣'], .delimiter ',', .word ['é', '.']] := by
    simp only [alternating_cons, alternating_nil]
    refine ⟨.word (by simp) ?_, ⟨.delimiter rfl, ⟨.word (by simp) ?_, trivial, ?_⟩, ?_⟩, ?_⟩
    · exact List.forall_mem_singleton.2 rfl
    · exact List.forall_mem_cons.2 ⟨rfl, List.forall_mem_singleton.2 rfl⟩
    all_goals simp [isWord]
  obtain ⟨source, hs⟩ := (prepared "1\u00a02+ x").2 ⟨'1', List.mem_cons_self, rfl⟩
  exact ⟨blanks _ _ rfl _, ⟨source, hs, characters _ source hs⟩,
    (unique _ _).2 ⟨alternating, rfl⟩⟩

end Lexeme

end Reckoner
