import Mathlib.Computability.Language
import Reckoner.Proofs.Text.Numeral

/-!
# The grammar of numerals

`Numeral.grammar` says which texts are numerals, as a regular expression: a sign or none, and then a
word for a number or digits with a point in, before or behind them and a power of ten. Reading
accepts these and no others (`Numeral.isSome_parse?_iff`), always to the end of the text. A text that
begins with a digit and has no sign anywhere is left with much less (`Numeral.mem_grammar_iff`):
`[0-9]+(\.[0-9]*)?([eE][0-9]+)?`, which is `Numeral.plainGrammar`.
-/

namespace Reckoner

namespace Numeral

open Computability

/-! ## The parts of a numeral -/

def digit : Language Char := {text | ∃ c, c.isDigit = true ∧ text = [c]}

def digits : Language Char := digit * digit∗

def point : Language Char := {['.']}

/-- The mark of a power of ten. -/
def mark : Language Char := {['e'], ['E']}

def sign : Language Char := {['+'], ['-']}

/-- Digits with a point in, before or behind them. -/
def significand : Language Char := digits * (1 + point * digit∗) + point * digits

def power : Language Char := mark * ((1 + sign) * digits)

/-- A word for a number, in any case. -/
def word : Language Char :=
  {text | text.map Char.toLower ∈ ["inf".toList, "infinity".toList, "nan".toList]}

/-- The texts that are numerals. -/
def grammar : Language Char := (1 + sign) * (word + significand * (1 + power))

/-- The numerals without signs that begin with a digit. -/
def plainGrammar : Language Char := digits * (1 + point * digit∗) * (1 + mark * digits)

/-! ## Digits -/

variable {text : List Char}

theorem mem_kstar_digit : text ∈ digit∗ ↔ ∀ c ∈ text, c.isDigit = true := by
  constructor
  · rintro h c hc
    obtain ⟨pieces, rfl, hpieces⟩ := Language.mem_kstar.1 h
    obtain ⟨piece, hmem, hc⟩ := List.mem_flatten.1 hc
    obtain ⟨d, hd, rfl⟩ := hpieces piece hmem
    rwa [List.mem_singleton.1 hc]
  · intro h
    rw [← List.flatMap_singleton' text]
    refine Language.join_mem_kstar fun piece hmem => ?_
    obtain ⟨c, hc, rfl⟩ := List.mem_map.1 hmem
    exact ⟨c, h c hc, rfl⟩

theorem mem_digits : text ∈ digits ↔ text ≠ [] ∧ ∀ c ∈ text, c.isDigit = true := by
  rw [digits, Language.mem_mul]
  constructor
  · rintro ⟨_, ⟨c, hc, rfl⟩, rest, hrest, rfl⟩
    exact ⟨List.cons_ne_nil _ _, List.forall_mem_cons.2 ⟨hc, mem_kstar_digit.1 hrest⟩⟩
  · rintro ⟨hne, h⟩
    obtain ⟨c, rest, rfl⟩ := List.exists_cons_of_ne_nil hne
    obtain ⟨hc, hrest⟩ := List.forall_mem_cons.1 h
    exact ⟨[c], ⟨c, hc, rfl⟩, rest, mem_kstar_digit.2 hrest, rfl⟩

theorem isSome_exponentDigits? : (exponentDigits? text).isSome = true ↔ text ∈ digits := by
  rw [mem_digits, exponentDigits?]
  split
  · next h => simpa [or_iff_not_imp_left] using h
  · next h => simpa using h

/-! ## Optional signs -/

/-- What stands behind the sign of a text, if it has one. -/
def afterSign : List Char → List Char
  | '+' :: rest | '-' :: rest => rest
  | text => text

theorem afterSign_of_ne (plus : ∀ rest, text ≠ '+' :: rest) (minus : ∀ rest, text ≠ '-' :: rest) :
    afterSign text = text := by
  unfold afterSign
  split
  · next rest => exact absurd rfl (plus rest)
  · next rest => exact absurd rfl (minus rest)
  · rfl

/-- A sign is read off a text if it is not part of what follows. -/
theorem mem_sign_mul {l : Language Char} (h : ∀ rest, '+' :: rest ∉ l ∧ '-' :: rest ∉ l) :
    text ∈ (1 + sign) * l ↔ afterSign text ∈ l := by
  have signed : text ∈ (1 + sign) * l ↔
      text ∈ l ∨ ∃ rest ∈ l, text = '+' :: rest ∨ text = '-' :: rest := by
    rw [add_mul, one_mul, Language.mem_add, Language.mem_mul]
    refine or_congr_right ⟨?_, ?_⟩
    · rintro ⟨_, rfl | rfl, rest, hrest, rfl⟩
      · exact ⟨rest, hrest, .inl rfl⟩
      · exact ⟨rest, hrest, .inr rfl⟩
    · rintro ⟨rest, hrest, rfl | rfl⟩
      · exact ⟨['+'], .inl rfl, rest, hrest, rfl⟩
      · exact ⟨['-'], .inr rfl, rest, hrest, rfl⟩
  rw [signed]
  unfold afterSign
  split
  · next rest => simp [(h rest).1]
  · next rest => simp [(h rest).2]
  · next plus minus =>
    refine or_iff_left ?_
    rintro ⟨rest, -, rfl | rfl⟩
    · exact plus rest rfl
    · exact minus rest rfl

theorem sign_notMem_digits (rest : List Char) : '+' :: rest ∉ digits ∧ '-' :: rest ∉ digits := by
  constructor <;> intro h <;> cases (mem_digits.1 h).2 _ List.mem_cons_self

/-! ## Powers of ten -/

theorem isSome_exponent?_cons {c : Char} : (exponent? (c :: text)).isSome = true ↔
    (c = 'e' ∨ c = 'E') ∧ (exponentDigits? (afterSign text)).isSome = true := by
  unfold exponent? afterSign
  by_cases hc : c = 'e' ∨ c = 'E'
  · dsimp only
    rw [if_pos hc]
    split <;> simp [hc]
  · dsimp only
    rw [if_neg hc]
    simp [hc]

theorem isSome_exponent? : (exponent? text).isSome = true ↔ text ∈ 1 + power := by
  rw [Language.mem_add, Language.mem_one, power, Language.mem_mul]
  cases text with
  | nil => exact iff_of_true rfl (.inl rfl)
  | cons c rest =>
    rw [isSome_exponent?_cons, isSome_exponentDigits?, ← mem_sign_mul sign_notMem_digits]
    constructor
    · rintro ⟨rfl | rfl, h⟩
      · exact .inr ⟨['e'], .inl rfl, rest, h, rfl⟩
      · exact .inr ⟨['E'], .inr rfl, rest, h, rfl⟩
    · rintro (⟨⟨⟩⟩ | ⟨_, rfl | rfl, tail, h, heq⟩)
      · cases heq
        exact ⟨.inl rfl, h⟩
      · cases heq
        exact ⟨.inr rfl, h⟩

/-- A power of ten does not go on with the digits before it. -/
theorem head_of_mem_power {behind : List Char} (h : behind ∈ 1 + power) :
    ∀ c ∈ behind.head?, c.isDigit = false ∧ c ≠ '.' := by
  rw [Language.mem_add, Language.mem_one, power, Language.mem_mul] at h
  rcases h with rfl | ⟨_, rfl | rfl, rest, -, rfl⟩
  · simp
  · rintro c ⟨⟩
    exact ⟨rfl, by decide⟩
  · rintro c ⟨⟩
    exact ⟨rfl, by decide⟩

/-! ## Significands -/

theorem mem_significand : text ∈ significand ↔ ∃ whole fraction,
    (whole ≠ [] ∨ fraction ≠ []) ∧ (∀ c ∈ whole ++ fraction, c.isDigit = true) ∧
      (text = whole ∧ fraction = [] ∨ text = whole ++ '.' :: fraction) := by
  simp only [significand, Language.mem_add, Language.mem_mul, Language.mem_one, mem_digits,
    mem_kstar_digit, List.forall_mem_append]
  constructor
  · rintro (⟨whole, ⟨hne, hwhole⟩, _, rfl | ⟨_, rfl, fraction, hfraction, rfl⟩, rfl⟩ |
      ⟨_, rfl, fraction, ⟨hne, hfraction⟩, rfl⟩)
    · exact ⟨whole, [], .inl hne, ⟨hwhole, by simp⟩, .inl ⟨List.append_nil _, rfl⟩⟩
    · exact ⟨whole, fraction, .inl hne, ⟨hwhole, hfraction⟩, .inr rfl⟩
    · exact ⟨[], fraction, .inr hne, ⟨by simp, hfraction⟩, .inr rfl⟩
  · rintro ⟨whole, fraction, hne, ⟨hwhole, hfraction⟩, ⟨rfl, rfl⟩ | rfl⟩
    · exact .inl ⟨text, ⟨hne.resolve_right (by simp), hwhole⟩, [], .inl rfl, List.append_nil _⟩
    · by_cases hnil : whole = []
      · subst hnil
        exact .inr ⟨['.'], rfl, fraction, ⟨hne.resolve_left (by simp), hfraction⟩, rfl⟩
      · exact .inl ⟨whole, ⟨hnil, hwhole⟩, _, .inr ⟨['.'], rfl, fraction, hfraction, rfl⟩, rfl⟩

theorem splitFraction_append (rest : List Char) :
    rest = (splitFraction rest).2 ∧ (splitFraction rest).1 = [] ∨
      rest = '.' :: (splitFraction rest).1 ++ (splitFraction rest).2 := by
  unfold splitFraction
  split
  · next rest => exact .inr (congrArg ('.' :: ·) (splitDigits_append rest).symm)
  · exact .inl ⟨rfl, rfl⟩

theorem isSome_decimal? (negative : Bool) : (decimal? negative text).isSome = true ↔
    text ∈ significand * (1 + power) := by
  rw [Language.mem_mul]
  constructor
  · intro h
    -- what is read off the text, put together again, is the text
    unfold decimal? at h
    dsimp only at h
    have whole := splitDigits_append text
    have hwhole : ∀ c ∈ (splitDigits text).1, c.isDigit = true := fun _ =>
      isDigit_of_mem_splitDigits
    generalize splitDigits text = parts at h whole hwhole
    have fraction := splitFraction_append parts.2
    have hfraction : ∀ c ∈ (splitFraction parts.2).1, c.isDigit = true := fun _ =>
      isDigit_of_mem_splitFraction
    generalize splitFraction parts.2 = parts' at h fraction hfraction
    split at h
    · cases h
    · next some =>
      rw [Option.isSome_map, isSome_exponent?] at h
      simp only [Bool.and_eq_true, List.isEmpty_iff, not_and_or] at some
      rcases fraction with ⟨hrest, hnil⟩ | hrest
      · rw [hrest] at whole
        exact ⟨parts.1, mem_significand.2 ⟨parts.1, parts'.1, some,
          List.forall_mem_append.2 ⟨hwhole, hfraction⟩, .inl ⟨rfl, hnil⟩⟩, parts'.2, h, whole⟩
      · rw [hrest, ← List.append_assoc] at whole
        exact ⟨parts.1 ++ '.' :: parts'.1, mem_significand.2 ⟨parts.1, parts'.1, some,
          List.forall_mem_append.2 ⟨hwhole, hfraction⟩, .inr rfl⟩, parts'.2, h, whole⟩
  · rintro ⟨front, hfront, behind, hbehind, rfl⟩
    obtain ⟨whole, fraction, hne, hdigits, hsplit⟩ := mem_significand.1 hfront
    obtain ⟨rest, first, second⟩ := exists_split hdigits hsplit (head_of_mem_power hbehind)
    have some : (whole.isEmpty && fraction.isEmpty) = false := by
      rw [Bool.and_eq_false_iff]
      simpa using hne
    unfold decimal?
    simp only [first, second, some]
    simpa using isSome_exponent?.2 hbehind

/-! ## Whole numerals -/

theorem isSome_unsigned? (negative : Bool) : (unsigned? negative text).isSome = true ↔
    text ∈ word + significand * (1 + power) := by
  have words : text ∈ word ↔ text.map Char.toLower = "inf".toList ∨
      text.map Char.toLower = "infinity".toList ∨ text.map Char.toLower = "nan".toList := by
    change text.map Char.toLower ∈ ["inf".toList, "infinity".toList, "nan".toList] ↔ _
    simp only [List.mem_cons, List.not_mem_nil, or_false]
  rw [Language.mem_add, ← isSome_decimal? negative, words, unsigned?]
  split
  · next h => exact iff_of_true rfl (.inl (h.imp_right .inl))
  · split
    · next h => exact iff_of_true rfl (.inl (.inr (.inr h)))
    · next h h' =>
      refine (or_iff_right ?_).symm
      rintro (hword | hword | hword)
      · exact h (.inl hword)
      · exact h (.inr hword)
      · exact h' hword

theorem sign_notMem_unsigned (rest : List Char) :
    '+' :: rest ∉ word + significand * (1 + power) ∧
      '-' :: rest ∉ word + significand * (1 + power) := by
  constructor <;> intro h <;> cases (isSome_unsigned? false).2 h

/-- **Reading accepts the numerals of the grammar**, and nothing else. -/
theorem isSome_parse?_iff : (parse? text).isSome = true ↔ text ∈ grammar := by
  rw [grammar, mem_sign_mul sign_notMem_unsigned]
  unfold parse?
  split
  · exact isSome_unsigned? _
  · exact isSome_unsigned? _
  · next plus minus => rw [afterSign_of_ne plus minus, isSome_unsigned?]

theorem isSome_readFloat?_iff : (readFloat? text).isSome = true ↔ text ∈ grammar := by
  rw [readFloat?, Option.isSome_map, isSome_parse?_iff]

/-! ## Numerals that begin with a digit -/

section Digit

variable {d : Char} (hd : d.isDigit = true)

include hd

theorem notMem_word_of_isDigit : d :: text ∉ word := by
  intro h
  change (d :: text).map Char.toLower ∈ ["inf".toList, "infinity".toList, "nan".toList] at h
  rw [List.map_cons, toLower_of_isDigit hd] at h
  simp [ne_of_isDigit hd (c := 'i') rfl, ne_of_isDigit hd (c := 'n') rfl] at h

/-- **A numeral that begins with a digit** has neither a word nor a point in front, and without signs
its power of ten is digits. -/
theorem mem_grammar_iff (plus : '+' ∉ d :: text) (minus : '-' ∉ d :: text) :
    d :: text ∈ grammar ↔ d :: text ∈ plainGrammar := by
  -- neither the text nor its power of ten has a sign to be read off
  have unsigned : ∀ {part : List Char}, part ⊆ d :: text → afterSign part = part := by
    intro part sub
    refine afterSign_of_ne (fun rest => ?_) (fun rest => ?_)
    · rintro rfl
      exact plus (sub List.mem_cons_self)
    · rintro rfl
      exact minus (sub List.mem_cons_self)
  rw [grammar, mem_sign_mul sign_notMem_unsigned, unsigned (List.Subset.refl _), Language.mem_add,
    or_iff_right (notMem_word_of_isDigit hd), plainGrammar, Language.mem_mul, Language.mem_mul]
  constructor
  · rintro ⟨front, hfront, behind, hbehind, heq⟩
    refine ⟨front, ?_, behind, ?_, heq⟩
    · rcases hfront with hfront | ⟨_, rfl, tail, -, rfl⟩
      · exact hfront
      · -- a point in front is no digit
        cases heq
        cases hd
    · rcases hbehind with hnil | ⟨m, hm, signed, hsigned, rfl⟩
      · exact .inl hnil
      · refine .inr ⟨m, hm, signed, ?_, rfl⟩
        have sub : signed ⊆ d :: text := by
          rw [← heq]
          exact fun c hc => List.mem_append_right _ (List.mem_append_right _ hc)
        have hdigits := (mem_sign_mul sign_notMem_digits).1 hsigned
        rwa [unsigned sub] at hdigits
  · rintro ⟨front, hfront, behind, hbehind, heq⟩
    refine ⟨front, .inl hfront, behind, ?_, heq⟩
    rcases hbehind with hnil | ⟨m, hm, tail, htail, rfl⟩
    · exact .inl hnil
    · exact .inr ⟨m, hm, tail, ⟨[], .inl rfl, tail, htail, rfl⟩, rfl⟩

end Digit

theorem exists_head_of_mem_plainGrammar (h : text ∈ plainGrammar) :
    ∃ d rest, text = d :: rest ∧ d.isDigit = true := by
  obtain ⟨_, ⟨whole, hwhole, tail, -, rfl⟩, behind, -, rfl⟩ := h
  obtain ⟨hne, hdigits⟩ := mem_digits.1 hwhole
  obtain ⟨d, rest, rfl⟩ := List.exists_cons_of_ne_nil hne
  exact ⟨d, _, rfl, hdigits d List.mem_cons_self⟩

end Numeral

end Reckoner
