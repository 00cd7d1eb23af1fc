import Reckoner.Lexeme

/-!
# Splitting a text at its delimiters

A delimiter is a boundary: a text that is put together from two parts splits into the lexemes of the
parts when the left part ends, or the right part begins, with a delimiter (`split_append_of_head`,
`split_append_of_getLast`). Without a delimiter a text is one word (`split_word`).
-/

namespace Reckoner

namespace Lexeme

@[simp] theorem split_nil : split [] = [] := rfl

theorem split_cons (c : Char) (text : List Char) :
    split (c :: text) = consChar c (split text) := rfl

theorem consChar_delimiter {c : Char} (h : isDelimiter c = true) (lexemes : List Lexeme) :
    consChar c lexemes = delimiter c :: lexemes := by
  unfold consChar
  rw [if_pos h]

theorem consChar_word {c : Char} (h : isDelimiter c = false) (chars : List Char)
    (lexemes : List Lexeme) :
    consChar c (word chars :: lexemes) = word (c :: chars) :: lexemes := by
  unfold consChar
  rw [if_neg (by simp [h])]

/-- What does not begin with a word gets a new one. -/
theorem consChar_new {c : Char} (h : isDelimiter c = false) {lexemes : List Lexeme}
    (hl : ∀ chars rest, lexemes ≠ word chars :: rest) :
    consChar c lexemes = word [c] :: lexemes := by
  unfold consChar
  rw [if_neg (by simp [h])]
  split
  · next chars rest => exact absurd rfl (hl chars rest)
  · rfl

theorem split_delimiter {c : Char} (h : isDelimiter c = true) (text : List Char) :
    split (c :: text) = delimiter c :: split text :=
  consChar_delimiter h _

/-- Lexemes that do not begin with a word stay as they are behind those of a text. -/
theorem foldr_consChar (text : List Char) {lexemes : List Lexeme}
    (hl : ∀ chars rest, lexemes ≠ word chars :: rest) :
    text.foldr consChar lexemes = split text ++ lexemes := by
  induction text with
  | nil => rfl
  | cons c text ih =>
    rw [List.foldr_cons, ih, split_cons]
    cases hc : isDelimiter c with
    | true => rw [consChar_delimiter hc, consChar_delimiter hc, List.cons_append]
    | false =>
      cases hs : split text with
      | nil => rw [List.nil_append, consChar_new hc hl, consChar_new hc (by simp)]; rfl
      | cons lexeme rest =>
        cases lexeme with
        | word chars =>
          rw [List.cons_append, consChar_word hc, consChar_word hc, List.cons_append]
        | delimiter d =>
          rw [List.cons_append, consChar_new hc (by simp), consChar_new hc (by simp)]
          rfl

/-- A text that is empty or begins with a delimiter does not go on with the word before it. -/
theorem split_append_of_head {right : List Char} (h : ∀ c ∈ right.head?, isDelimiter c = true)
    (left : List Char) : split (left ++ right) = split left ++ split right := by
  have hl : ∀ chars rest, split right ≠ word chars :: rest := by
    cases right with
    | nil => simp
    | cons c right =>
      rw [split_delimiter (h c rfl)]
      simp
  rw [← foldr_consChar left hl, split, List.foldr_append]
  rfl

/-- A text that is empty or ends with a delimiter leaves no word to go on with. -/
theorem split_append_of_getLast {left : List Char} (h : ∀ c ∈ left.getLast?, isDelimiter c = true)
    (right : List Char) : split (left ++ right) = split left ++ split right := by
  rcases List.eq_nil_or_concat left with rfl | ⟨front, c, rfl⟩
  · rfl
  · have hc : isDelimiter c = true := h c (by simp)
    have hend : split (front ++ [c]) = split front ++ split [c] :=
      split_append_of_head (by simpa using hc) front
    rw [List.concat_eq_append, List.append_assoc, List.singleton_append,
      split_append_of_head (by simpa using hc), hend, split_delimiter hc, split_delimiter hc]
    simp

/-- A text without delimiters is one word. -/
theorem split_word {text : List Char} (hne : text ≠ [])
    (h : ∀ c ∈ text, isDelimiter c = false) : split text = [word text] := by
  induction text with
  | nil => exact absurd rfl hne
  | cons c text ih =>
    have hc := h c List.mem_cons_self
    rw [split_cons]
    cases text with
    | nil => exact consChar_new hc (by simp)
    | cons d text =>
      rw [ih (by simp) fun e he => h e (List.mem_cons_of_mem _ he)]
      exact consChar_word hc _ _

/-- A delimiter, or a word without any. -/
inductive IsPiece : Lexeme → Prop where
  | delimiter {c : Char} (h : isDelimiter c = true) : IsPiece (delimiter c)
  | word {chars : List Char} (hne : chars ≠ []) (h : ∀ c ∈ chars, isDelimiter c = false) :
      IsPiece (word chars)

theorem isPiece_of_mem_consChar {c : Char} {lexemes : List Lexeme}
    (h : ∀ lexeme ∈ lexemes, IsPiece lexeme) : ∀ lexeme ∈ consChar c lexemes, IsPiece lexeme := by
  cases hc : isDelimiter c with
  | true =>
    rw [consChar_delimiter hc]
    exact List.forall_mem_cons.2 ⟨.delimiter hc, h⟩
  | false =>
    have single : IsPiece (word [c]) := .word (by simp) (by simpa using hc)
    match lexemes, h with
    | [], h | delimiter d :: rest, h =>
      rw [consChar_new hc (by simp)]
      exact List.forall_mem_cons.2 ⟨single, h⟩
    | word chars :: rest, h =>
      obtain ⟨hword, hrest⟩ := List.forall_mem_cons.1 h
      rw [consChar_word hc]
      cases hword with
      | word _ hplain =>
        refine List.forall_mem_cons.2 ⟨.word (by simp) ?_, hrest⟩
        exact List.forall_mem_cons.2 ⟨hc, hplain⟩

/-- A text falls apart into delimiters and words without any. -/
theorem isPiece_of_mem_split {text : List Char} : ∀ lexeme ∈ split text, IsPiece lexeme := by
  induction text with
  | nil => simp
  | cons c text ih =>
    rw [split_cons]
    exact isPiece_of_mem_consChar ih

theorem flatMap_chars_consChar (c : Char) (lexemes : List Lexeme) :
    (consChar c lexemes).flatMap chars = c :: lexemes.flatMap chars := by
  unfold consChar
  split
  · rfl
  · split <;> rfl

/-- Splitting loses no character. -/
theorem flatMap_chars_split (text : List Char) : (split text).flatMap chars = text := by
  induction text with
  | nil => rfl
  | cons c text ih => rw [split_cons, flatMap_chars_consChar, ih]

end Lexeme

/-! ## Characters that end a word -/

theorem Lexeme.isDigit_of_isDelimiter {c : Char} (h : isDelimiter c = true) :
    c.isDigit = false := by
  have all : delimiters.all (!Char.isDigit ·) = true := by decide
  simpa using List.all_eq_true.1 all c (List.contains_iff_mem.1 h)

theorem Lexeme.isDelimiter_of_isDigit {c : Char} (h : c.isDigit = true) :
    isDelimiter c = false := by
  cases hdelim : isDelimiter c with
  | false => rfl
  | true =>
    rw [isDigit_of_isDelimiter hdelim] at h
    cases h

theorem Lexeme.isBlank_of_isDelimiter {c : Char} (h : isDelimiter c = true) :
    isBlank c = false := by
  have all : delimiters.all (!isBlank ·) = true := by decide
  simpa using List.all_eq_true.1 all c (List.contains_iff_mem.1 h)

/-! ## The prepared text -/

/-- The characters of an expression that count. -/
def kept (expression : String) : List Char :=
  expression.toList.filter fun c => !isBlank c

theorem kept_append (left right : String) : kept (left ++ right) = kept left ++ kept right := by
  simp [kept]

/-- A text without blanks counts as it is. -/
theorem kept_eq_self {text : String} (h : ∀ c ∈ text.toList, isBlank c = false) :
    kept text = text.toList := by
  rw [kept, List.filter_eq_self]
  intro c hc
  rw [h c hc]
  rfl

theorem prepare_eq (expression : String) : prepare expression =
    if kept expression = [] then .error .emptyExpression
    else .ok (String.ofList ('(' :: kept expression ++ [')'])) := by
  unfold prepare kept
  simp only [List.isEmpty_iff]

end Reckoner
