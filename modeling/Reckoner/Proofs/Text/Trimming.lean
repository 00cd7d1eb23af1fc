import Mathlib.Data.List.DropRight
import Reckoner.Blank

/-!
# Trimmed texts

Trimming takes away the blanks at both ends of a text and no more (`isTrimmed_trimBlanks`,
`trimBlanks_eq_self`). What is left begins with the first character that is not blank
(`head?_trimBlanks`), and a blank behind a text makes no difference (`trimBlanks_concat`).
-/

namespace Reckoner

/-- Whether a text neither begins nor ends with a blank. -/
structure IsTrimmed (text : List Char) : Prop where
  head : ∀ c ∈ text.head?, isBlank c = false
  last : ∀ c ∈ text.getLast?, isBlank c = false

theorem trimBlanks_eq_rdropWhile (text : List Char) :
    trimBlanks text = (text.dropWhile isBlank).rdropWhile isBlank :=
  rfl

theorem trimBlanks_cons_of_isBlank {c : Char} (h : isBlank c = true) (text : List Char) :
    trimBlanks (c :: text) = trimBlanks text := by
  rw [trimBlanks_eq_rdropWhile, List.dropWhile_cons_of_pos h, trimBlanks_eq_rdropWhile]

theorem trimBlanks_concat {c : Char} (h : isBlank c = true) (text : List Char) :
    trimBlanks (text ++ [c]) = trimBlanks text := by
  rw [trimBlanks_eq_rdropWhile, trimBlanks_eq_rdropWhile, List.dropWhile_append]
  split
  · next all =>
    rw [List.isEmpty_iff.1 all, List.dropWhile_cons_of_pos h, List.dropWhile_nil]
  · exact List.rdropWhile_concat_pos _ _ _ h

/-- Nothing is cut off in front of a character that is not blank. -/
theorem head?_rdropWhile_cons {c : Char} (h : isBlank c = false) (text : List Char) :
    ((c :: text).rdropWhile isBlank).head? = some c := by
  rw [List.rdropWhile, List.reverse_cons, List.dropWhile_append]
  split
  · rw [List.dropWhile_cons_of_neg (by simp [h])]
    rfl
  · rw [List.reverse_append]
    rfl

theorem head?_trimBlanks (text : List Char) :
    (trimBlanks text).head? = text.find? fun c => !isBlank c := by
  induction text with
  | nil => rfl
  | cons c text ih =>
    cases hc : isBlank c with
    | true => rw [trimBlanks_cons_of_isBlank hc, ih, List.find?_cons_of_neg (by simp [hc])]
    | false =>
      rw [trimBlanks_eq_rdropWhile, List.dropWhile_cons_of_neg (by simp [hc]),
        head?_rdropWhile_cons hc, List.find?_cons_of_pos (by simp [hc])]

theorem isTrimmed_trimBlanks (text : List Char) : IsTrimmed (trimBlanks text) := by
  constructor
  · intro c hc
    rw [head?_trimBlanks] at hc
    simpa using List.find?_some hc
  · intro c hc
    obtain ⟨hne, rfl⟩ := List.mem_getLast?_eq_getLast hc
    exact eq_false_of_ne_true (List.rdropWhile_last_not isBlank (text.dropWhile isBlank) hne)

theorem trimBlanks_eq_self {text : List Char} (h : IsTrimmed text) : trimBlanks text = text := by
  have front : text.dropWhile isBlank = text := by
    cases text with
    | nil => rfl
    | cons c text => exact List.dropWhile_cons_of_neg (by simp [h.head c rfl])
  rw [trimBlanks_eq_rdropWhile, front, List.rdropWhile_eq_self_iff]
  intro hne
  simp [h.last _ (List.getLast?_eq_some_getLast hne)]

end Reckoner
