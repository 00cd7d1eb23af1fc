/-!
# Blank characters

Blanks are the characters with the Unicode property `White_Space`: the controls from tab to carriage
return, the space, next line, and the space, line and paragraph separators.
-/

namespace Reckoner

/-- The code points of the blanks, as inclusive ranges in ascending order. -/
def blankRanges : List (Nat × Nat) :=
  [(0x09, 0x0D), (0x20, 0x20), (0x85, 0x85), (0xA0, 0xA0), (0x1680, 0x1680), (0x2000, 0x200A),
    (0x2028, 0x2029), (0x202F, 0x202F), (0x205F, 0x205F), (0x3000, 0x3000)]

def isBlank (c : Char) : Bool :=
  blankRanges.any fun (first, last) => first ≤ c.toNat && c.toNat ≤ last

/-- A text without the blanks at its start and its end. -/
def trimBlanks (text : List Char) : List Char :=
  ((text.dropWhile isBlank).reverse.dropWhile isBlank).reverse

/-- Nothing is trimmed from a text without blanks. -/
theorem trimBlanks_of_isBlank {text : List Char} (h : ∀ c ∈ text, isBlank c = false) :
    trimBlanks text = text := by
  have keep : ∀ {text : List Char}, (∀ c ∈ text, isBlank c = false) →
      text.dropWhile isBlank = text := by
    intro text h
    cases text with
    | nil => rfl
    | cons c text => rw [List.dropWhile_cons, h c List.mem_cons_self, if_neg Bool.false_ne_true]
  rw [trimBlanks, keep h, keep (fun c hc => h c (List.mem_reverse.1 hc)), List.reverse_reverse]

theorem mem_of_mem_trimBlanks {text : List Char} {c : Char} (h : c ∈ trimBlanks text) : c ∈ text := by
  have := (List.dropWhile_sublist _).subset (List.mem_reverse.1 h)
  exact (List.dropWhile_sublist _).subset (List.mem_reverse.1 this)

end Reckoner
