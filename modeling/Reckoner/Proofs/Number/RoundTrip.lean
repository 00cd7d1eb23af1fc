import Reckoner.Proofs.Number.Scientific

/-!
# What is written reads back

In every layout the text of a finite double is its sign and the digits of a decimal, which the
double is the nearest to. The digits are a row with a point (`Spells`), or they have a power of ten
behind them; either way the number that they stand for can be read (`Reads`). So every double reads
back from its text (`readFloat?_chars`).
-/

namespace Reckoner

section Digits

variable {d : Decimal}

theorem isDigit_of_mem_stripZeros {c : Char} (h : c ∈ Layout.stripZeros d.digits) :
    c.isDigit = true := by
  obtain ⟨n, hn⟩ := exists_zeros d.digits
  have hc : c ∈ d.digits := by
    rw [hn]
    exact List.mem_append_left _ h
  exact Nat.isDigit_of_mem_toDigits (by decide) (by decide) hc

/-- The digits that are written have the value of the decimal. -/
theorem digitsValue_written (d : Decimal) :
    digitsValue (Layout.stripZeros d.digits)
      (d.digits.length + d.exponent - (Layout.stripZeros d.digits).length) = d.toRat := by
  rw [digitsValue_stripZeros, add_sub_cancel_left, Decimal.digitsValue_digits]

theorem spells_decimal (layout : Layout) (d : Decimal) :
    Spells (layout.positionalText (Layout.stripZeros d.digits) (d.digits.length + d.exponent))
      d.toRat := by
  rw [← digitsValue_written]
  exact spells_positionalText (fun _ => isDigit_of_mem_stripZeros) layout

end Digits

section Magnitude

variable {m : Nat} {e : Int}

theorem spells_zero (layout : Layout) :
    Spells ('0' :: if layout.pointed then ['.', '0'] else []) (Binary64.scaled 0 e) := by
  have value : digitsValue ['0'] 0 = Binary64.scaled 0 e := by
    simp [digitsValue, Nat.ofDigitChars_cons, Binary64.scaled]
  rw [← value]
  exact spells_whole layout (List.cons_ne_nil _ _) (List.forall_mem_singleton.2 rfl)

/-- The plain text of a magnitude is a row of digits. -/
theorem exists_spells_magnitudeText (m : Nat) (e : Int) :
    ∃ x, Spells (Layout.plain.magnitudeText m e) x := by
  unfold Layout.magnitudeText
  by_cases zero : m = 0
  · rw [if_pos zero]
    exact ⟨_, spells_zero (e := e) .plain⟩
  · rw [if_neg zero]
    exact ⟨_, spells_decimal .plain _⟩

/-- The decimal that is written for a double other than zero is not zero. -/
theorem coefficient_shortest_ne_zero {bits : Nat} (h : Binary64.IsFinite bits m e) (hm : m ≠ 0) :
    (Binary64.shortest m e).coefficient ≠ 0 := by
  intro zero
  have rounds := Binary64.magnitudeBits_shortest m e
  rw [Binary64.magnitudeBits_scaled h, Decimal.toRat, zero, Nat.cast_zero, zero_mul] at rounds
  have sum := h.sum
  change 0 = bits at rounds
  omega

/-- The text of the magnitude of a finite double reads as a number with the same nearest double. -/
theorem exists_reads_magnitudeText (layout : Layout) {bits : Nat} (h : Binary64.IsFinite bits m e) :
    ∃ x, Reads (layout.magnitudeText m e) x ∧
      Binary64.magnitudeBits x = Binary64.magnitudeBits (Binary64.scaled m e) := by
  unfold Layout.magnitudeText
  by_cases zero : m = 0
  · subst zero
    rw [if_pos rfl]
    exact ⟨_, (spells_zero layout).reads, rfl⟩
  · rw [if_neg zero]
    refine ⟨_, ?_, Binary64.magnitudeBits_shortest m e⟩
    unfold Layout.decimalText Layout.digitsText
    split
    · exact (spells_decimal layout _).reads
    · rw [← digitsValue_written]
      exact reads_scientificText (stripZeros_ne_nil (coefficient_shortest_ne_zero h zero))
        (fun _ => isDigit_of_mem_stripZeros) (Binary64.natAbs_point_shortest_lt h)

end Magnitude

/-- **Every double reads back** from its text, in every layout. -/
theorem readFloat?_chars (layout : Layout) (v : Float) : readFloat? (layout.chars v) = some v := by
  unfold Layout.chars
  have viewed := Binary64.viewed v
  generalize Binary64.view v = w at viewed
  cases viewed with
  | nan magnitude => exact (congrArg some (Binary64.eq_nan magnitude)).symm
  | infinite magnitude =>
    refine Eq.trans ?_ (congrArg some (Binary64.eq_infinity magnitude)).symm
    cases decide (Binary64.signWeight ≤ v.toBits.toNat) <;> rfl
  | @finite m e magnitude =>
    obtain ⟨x, reads, value⟩ := exists_reads_magnitudeText layout magnitude
    dsimp only
    rw [reads.readFloat?, ← Binary64.eq_ofMagnitude magnitude value]

theorem readFloat?_write (layout : Layout) (v : Float) :
    readFloat? (layout.write v).toList = some v := by
  rw [Layout.write, String.toList_ofList, readFloat?_chars]

/-! ## The characters of a plain text -/

theorem isBlank_of_all {text : List Char}
    (h : (text.all fun c => !isBlank c && decide (c ≠ '=')) = true) :
    ∀ c ∈ text, isBlank c = false ∧ c ≠ '=' := by
  simpa only [List.all_eq_true, Bool.and_eq_true, Bool.not_eq_true', decide_eq_true_eq] using h

theorem Spells.isBlank {text : List Char} {x : ℚ} (h : Spells text x) :
    ∀ c ∈ text, isBlank c = false ∧ c ≠ '=' := by
  intro c hc
  rcases h.isDigit_or_eq_point c hc with hd | rfl
  · exact ⟨Numeral.isBlank_of_isNumeralChar (Numeral.isNumeralChar_of_isDigit hd),
      Numeral.ne_of_isDigit hd rfl⟩
  · exact ⟨rfl, by decide⟩

/-- The text of a double has no blank and no equals sign. -/
theorem isBlank_of_mem_plain {v : Float} :
    ∀ c ∈ Layout.plain.chars v, isBlank c = false ∧ c ≠ '=' := by
  unfold Layout.chars
  cases Binary64.view v with
  | nan => exact isBlank_of_all rfl
  | infinite negative =>
    refine isBlank_of_all ?_
    cases negative <;> rfl
  | finite negative m e =>
    obtain ⟨x, spells⟩ := exists_spells_magnitudeText m e
    have sign : ∀ c ∈ Layout.signText negative, isBlank c = false ∧ c ≠ '=' := by
      refine isBlank_of_all ?_
      cases negative <;> rfl
    exact List.forall_mem_append.2 ⟨sign, spells.isBlank⟩

end Reckoner
