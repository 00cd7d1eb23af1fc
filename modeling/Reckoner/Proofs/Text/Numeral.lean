import Reckoner.Blank
import Reckoner.Number.Numeral

/-!
# The characters of a numeral

A numeral that begins with a digit is made of digits, points, marks of a power of ten and signs
(`Numeral.isNumeralChar_of_decimal?`). None of these is blank, so neither is anything in such a
numeral (`isBlank_of_readFloat?`).
-/

namespace Reckoner

namespace Numeral

/-- The characters that a numeral can have besides the letters of its words. -/
def isNumeralChar (c : Char) : Bool :=
  c.isDigit || ['.', 'e', 'E', '+', '-'].contains c

theorem toNat_of_isDigit {c : Char} (h : c.isDigit = true) : 48 ≤ c.toNat ∧ c.toNat ≤ 57 := by
  simp only [Char.isDigit, Bool.and_eq_true, decide_eq_true_eq] at h
  exact ⟨UInt32.le_iff_toNat_le.1 h.1, UInt32.le_iff_toNat_le.1 h.2⟩

theorem isNumeralChar_of_isDigit {c : Char} (h : c.isDigit = true) : isNumeralChar c = true := by
  simp [isNumeralChar, h]

theorem isDigit_of_mem_splitDigits {text : List Char} {c : Char} (h : c ∈ (splitDigits text).1) :
    c.isDigit = true :=
  List.all_eq_true.1 List.all_takeWhile c h

/-- Splitting off digits loses no character. -/
theorem splitDigits_append (text : List Char) :
    (splitDigits text).1 ++ (splitDigits text).2 = text :=
  List.takeWhile_append_dropWhile

/-- Splitting off digits takes all of them, and stops where they end. -/
theorem splitDigits_append_of_all {digits rest : List Char} (hd : ∀ c ∈ digits, c.isDigit = true)
    (hrest : ∀ c ∈ rest.head?, c.isDigit = false) :
    splitDigits (digits ++ rest) = (digits, rest) := by
  have stop : rest.takeWhile Char.isDigit = [] ∧ rest.dropWhile Char.isDigit = rest := by
    cases rest with
    | nil => exact ⟨rfl, rfl⟩
    | cons c rest =>
      have := hrest c rfl
      simp [this]
  rw [splitDigits, List.takeWhile_append_of_pos hd, List.dropWhile_append_of_pos hd, stop.1, stop.2,
    List.append_nil]

/-- Digits, with a point and further digits behind them or without, are split at the point. -/
theorem exists_split {whole fraction text behind : List Char}
    (isDigit : ∀ c ∈ whole ++ fraction, c.isDigit = true)
    (text_eq : text = whole ∧ fraction = [] ∨ text = whole ++ '.' :: fraction)
    (hbehind : ∀ c ∈ behind.head?, c.isDigit = false ∧ c ≠ '.') :
    ∃ rest, splitDigits (text ++ behind) = (whole, rest) ∧
      splitFraction rest = (fraction, behind) := by
  obtain ⟨hwhole, hfraction⟩ := List.forall_mem_append.1 isDigit
  have stop : ∀ c ∈ behind.head?, c.isDigit = false := fun c hc => (hbehind c hc).1
  rcases text_eq with ⟨rfl, rfl⟩ | rfl
  · refine ⟨behind, splitDigits_append_of_all hwhole stop, ?_⟩
    unfold splitFraction
    split
    · next rest => exact absurd rfl (hbehind '.' rfl).2
    · rfl
  · refine ⟨'.' :: (fraction ++ behind), ?_, splitDigits_append_of_all hfraction stop⟩
    rw [List.append_assoc, List.cons_append]
    exact splitDigits_append_of_all hwhole (by rintro c ⟨⟩; rfl)

theorem isNumeralChar_of_exponentDigits? {text : List Char} {n : Nat}
    (h : exponentDigits? text = some n) : ∀ c ∈ text, isNumeralChar c = true := by
  intro c hc
  unfold exponentDigits? at h
  split at h
  · cases h
  · next hd =>
    simp only [Bool.or_eq_true, Bool.not_eq_true', not_or, Bool.not_eq_false,
      List.all_eq_true] at hd
    exact isNumeralChar_of_isDigit (hd.2 c hc)

theorem isNumeralChar_of_exponent? {text : List Char} {n : Int} (h : exponent? text = some n) :
    ∀ c ∈ text, isNumeralChar c = true := by
  unfold exponent? at h
  split at h
  · simp
  · next mark rest =>
    split at h
    · next hmark =>
      have hm : isNumeralChar mark = true := by rcases hmark with rfl | rfl <;> rfl
      refine List.forall_mem_cons.2 ⟨hm, ?_⟩
      split at h <;> obtain ⟨n, hn, -⟩ := Option.map_eq_some_iff.1 h
      · exact List.forall_mem_cons.2 ⟨rfl, isNumeralChar_of_exponentDigits? hn⟩
      · exact List.forall_mem_cons.2 ⟨rfl, isNumeralChar_of_exponentDigits? hn⟩
      · exact isNumeralChar_of_exponentDigits? hn
    · cases h

/-- Splitting off a fraction loses only its point. -/
theorem mem_splitFraction {text : List Char} {c : Char} (hc : c ∈ text) :
    c = '.' ∨ c ∈ (splitFraction text).1 ∨ c ∈ (splitFraction text).2 := by
  unfold splitFraction
  split
  · next rest =>
    rcases List.mem_cons.1 hc with rfl | hc
    · exact .inl rfl
    · rw [← splitDigits_append rest, List.mem_append] at hc
      exact .inr hc
  · exact .inr (.inr hc)

theorem isDigit_of_mem_splitFraction {text : List Char} {c : Char}
    (h : c ∈ (splitFraction text).1) : c.isDigit = true := by
  unfold splitFraction at h
  split at h
  · exact isDigit_of_mem_splitDigits h
  · cases h

theorem isNumeralChar_of_decimal? {negative : Bool} {text : List Char} {numeral : Numeral}
    (h : decimal? negative text = some numeral) : ∀ c ∈ text, isNumeralChar c = true := by
  intro c hc
  unfold decimal? at h
  simp only at h
  split at h
  · cases h
  · obtain ⟨exponent, he, -⟩ := Option.map_eq_some_iff.1 h
    rw [← splitDigits_append text, List.mem_append] at hc
    rcases hc with hc | hc
    · exact isNumeralChar_of_isDigit (isDigit_of_mem_splitDigits hc)
    · rcases mem_splitFraction hc with rfl | hc | hc
      · rfl
      · exact isNumeralChar_of_isDigit (isDigit_of_mem_splitFraction hc)
      · exact isNumeralChar_of_exponent? he c hc

theorem ne_of_isDigit {d c : Char} (hd : d.isDigit = true) (hc : c.isDigit = false) : d ≠ c := by
  rintro rfl
  rw [hd] at hc
  cases hc

theorem toLower_of_isDigit {d : Char} (hd : d.isDigit = true) : d.toLower = d := by
  unfold Char.toLower
  rw [dif_neg]
  rintro ⟨h, -⟩
  have := toNat_of_isDigit hd
  have : 65 ≤ d.toNat := UInt32.le_iff_toNat_le.1 h
  omega

/-- Behind a digit no word for a number can follow. -/
theorem unsigned?_of_isDigit (negative : Bool) {d : Char} (hd : d.isDigit = true)
    (text : List Char) : unsigned? negative (d :: text) = decimal? negative (d :: text) := by
  have hlower := toLower_of_isDigit hd
  have hi := ne_of_isDigit hd (c := 'i') rfl
  have hn := ne_of_isDigit hd (c := 'n') rfl
  unfold unsigned?
  simp [hlower, hi, hn]

theorem parse?_of_isDigit {d : Char} (hd : d.isDigit = true) (text : List Char) :
    parse? (d :: text) = decimal? false (d :: text) := by
  unfold parse?
  split
  · next rest heq => exact absurd (List.cons.inj heq).1 (ne_of_isDigit hd rfl)
  · next rest heq => exact absurd (List.cons.inj heq).1 (ne_of_isDigit hd rfl)
  · exact unsigned?_of_isDigit false hd text

theorem isBlank_of_isNumeralChar {c : Char} (h : isNumeralChar c = true) : isBlank c = false := by
  simp only [isNumeralChar, Bool.or_eq_true] at h
  rcases h with h | h
  · have := toNat_of_isDigit h
    simp only [isBlank, blankRanges, List.any_cons, List.any_nil, Bool.or_false,
      Bool.or_eq_false_iff, Bool.and_eq_false_iff, decide_eq_false_iff_not]
    omega
  · simp only [List.contains_iff_mem, List.mem_cons, List.not_mem_nil, or_false] at h
    rcases h with rfl | rfl | rfl | rfl | rfl <;> rfl

end Numeral

/-- **A numeral that begins with a digit** has no blanks. -/
theorem isBlank_of_readFloat? {d : Char} (hd : d.isDigit = true) {text : List Char}
    {value : Float} (h : readFloat? (d :: text) = some value) :
    ∀ c ∈ d :: text, isBlank c = false := by
  intro c hc
  obtain ⟨numeral, hn, -⟩ := Option.map_eq_some_iff.1 h
  rw [Numeral.parse?_of_isDigit hd] at hn
  exact Numeral.isBlank_of_isNumeralChar (Numeral.isNumeralChar_of_decimal? hn c hc)

end Reckoner
