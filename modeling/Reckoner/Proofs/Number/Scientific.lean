import Reckoner.Proofs.Number.Digits

/-!
# Digits with a power of ten

Very large and very small numbers are written with a power of ten behind their digits. It reads back
because it is far below the bound from which the digits of a power of ten do not count any more
(`Numeral.exponent?_toString`): the full expansion of a double has a digit for every binary place at
most, and cutting digits off moves the first one by one place at most (`Decimal.Cuts`).
-/

namespace Reckoner

/-! ## Powers of ten -/

namespace Numeral

theorem le_ofDigitChars (digits : List Char) (n : Nat) : n ≤ Nat.ofDigitChars 10 digits n := by
  induction digits generalizing n with
  | nil => exact Nat.le_refl n
  | cons d digits ih =>
    rw [Nat.ofDigitChars_cons]
    refine Nat.le_trans ?_ (ih _)
    omega

/-- Below the bound all digits count. -/
theorem exponentOfDigits_eq {digits : List Char}
    (h : Nat.ofDigitChars 10 digits 0 < exponentLimit) :
    exponentOfDigits digits = Nat.ofDigitChars 10 digits 0 := by
  unfold exponentOfDigits
  generalize 0 = n at h ⊢
  induction digits generalizing n with
  | nil => rfl
  | cons d digits ih =>
    have below : n < exponentLimit := Nat.lt_of_le_of_lt (le_ofDigitChars (d :: digits) n) h
    rw [Nat.ofDigitChars_cons] at h ⊢
    rw [List.foldl_cons, if_pos below]
    exact ih _ h

theorem exponentDigits?_toDigits {n : Nat} (h : n < exponentLimit) :
    exponentDigits? (Nat.toDigits 10 n) = some n := by
  have value : Nat.ofDigitChars 10 (Nat.toDigits 10 n) 0 = n := Nat.ofDigitChars_ten_toDigits
  have digits : ∀ c ∈ Nat.toDigits 10 n, c.isDigit = true := fun c hc =>
    Nat.isDigit_of_mem_toDigits (by decide) (by decide) hc
  have some : Nat.toDigits 10 n ≠ [] := Nat.toDigits_ne_nil
  unfold exponentDigits?
  rw [if_neg (by simpa [some] using digits), exponentOfDigits_eq (by rwa [value]), value]

theorem exponent?_of_isDigit {d : Char} (hd : d.isDigit = true) (rest : List Char) :
    exponent? ('e' :: d :: rest) = (exponentDigits? (d :: rest)).map Int.ofNat := by
  unfold exponent?
  dsimp only
  rw [if_pos (.inl rfl)]
  split
  · next heq => exact absurd (List.cons.inj heq).1 (ne_of_isDigit hd rfl)
  · next heq => exact absurd (List.cons.inj heq).1 (ne_of_isDigit hd rfl)
  · rfl

/-- The text of a whole number reads back as a power of ten. -/
theorem exponent?_toString {n : Int} (h : n.natAbs < exponentLimit) :
    exponent? ('e' :: (toString n).toList) = some n := by
  rw [Int.toString_eq_repr]
  cases n with
  | ofNat n =>
    have digits : ((Int.ofNat n).repr).toList = Nat.toDigits 10 n := Nat.toList_repr
    obtain ⟨d, rest, hrest⟩ := List.exists_cons_of_ne_nil (Nat.toDigits_ne_nil (n := n) (b := 10))
    have hd : d.isDigit = true :=
      Nat.isDigit_of_mem_toDigits (by decide) (by decide) (hrest ▸ List.mem_cons_self)
    rw [digits, hrest, exponent?_of_isDigit hd, ← hrest, exponentDigits?_toDigits (n := n) h]
    rfl
  | negSucc n =>
    have digits : ((Int.negSucc n).repr).toList = '-' :: Nat.toDigits 10 (n + 1) := by
      change ("-" ++ (n + 1).repr).toList = _
      rw [String.toList_append, Nat.toList_repr]
      rfl
    rw [digits, exponent?, if_pos (.inl rfl), exponentDigits?_toDigits (n := n + 1) h]
    rfl

end Numeral

/-! ## Where the first digit stands -/

namespace Decimal

theorem length_digits_le_iff {d : Decimal} {k : Nat} (hk : 0 < k) :
    d.digits.length ≤ k ↔ d.coefficient < 10 ^ k :=
  Nat.length_toDigits_le_iff (by decide) hk

theorem length_digits_pos (d : Decimal) : 0 < d.digits.length :=
  Nat.length_toDigits_pos

/-- `d'` is `d` with digits cut off, up to a carry: its digits end no later, and begin no earlier
than one place in front. -/
structure Cuts (d d' : Decimal) : Prop where
  exponent_le : d.exponent ≤ d'.exponent
  point_le : d'.digits.length + d'.exponent ≤ d.digits.length + d.exponent + 1

variable {accept : Decimal → Bool} {d d' : Decimal} {dropped : Nat}

theorem coefficient_div_lt (h : dropped < d.digits.length) :
    d.coefficient / Nat.pow 10 dropped < 10 ^ (d.digits.length - dropped) := by
  have lt := (length_digits_le_iff d.length_digits_pos).1 (Nat.le_refl d.digits.length)
  refine Nat.div_lt_of_lt_mul ?_
  rwa [Nat.pow_eq, ← Nat.pow_add, Nat.add_sub_cancel' (Nat.le_of_lt h)]

theorem cuts_cutBelow (h : dropped < d.digits.length) : Cuts d (d.cutBelow dropped) := by
  have length : (d.cutBelow dropped).digits.length ≤ d.digits.length - dropped :=
    (length_digits_le_iff (Nat.sub_pos_of_lt h)).2 (coefficient_div_lt h)
  constructor
  · exact Int.le_add_of_nonneg_right (Int.natCast_nonneg dropped)
  · change _ + (d.exponent + dropped) ≤ _
    omega

theorem cuts_cutAbove (h : dropped < d.digits.length) : Cuts d (d.cutAbove dropped) := by
  have lt : (d.cutAbove dropped).coefficient < 10 ^ (d.digits.length - dropped + 1) := by
    have := coefficient_div_lt h
    have positive : 0 < 10 ^ (d.digits.length - dropped) := Nat.pow_pos (by decide)
    change d.coefficient / Nat.pow 10 dropped + 1 < _
    rw [Nat.pow_succ]
    omega
  have length := (length_digits_le_iff (Nat.succ_pos _)).2 lt
  constructor
  · exact Int.le_add_of_nonneg_right (Int.natCast_nonneg dropped)
  · change _ + (d.exponent + dropped) ≤ _
    omega

theorem cuts_of_neighbour? (h : dropped < d.digits.length)
    (hd' : neighbour? accept d dropped = some d') : Cuts d d' := by
  unfold neighbour? at hd'
  dsimp only at hd'
  have below := cuts_cutBelow h
  have above := cuts_cutAbove h
  split at hd' <;> cases hd'
  · split
    · exact below
    · exact above
  · exact below
  · exact above

theorem cuts_firstNeighbour (h : dropped < d.digits.length) :
    Cuts d (firstNeighbour accept d dropped) := by
  induction dropped with
  | zero =>
    rw [firstNeighbour]
    exact ⟨Int.le_refl _, by omega⟩
  | succ dropped ih =>
    rw [firstNeighbour]
    cases hd' : neighbour? accept d (dropped + 1) with
    | none => exact ih (Nat.lt_of_succ_lt h)
    | some d' => exact cuts_of_neighbour? h hd'

theorem cuts_shorten (accept : Decimal → Bool) (d : Decimal) : Cuts d (d.shorten accept) :=
  cuts_firstNeighbour (Nat.sub_lt d.length_digits_pos Nat.one_pos)

theorem mul_pow_lt {m b : Nat} (hm : m < 2 ^ 53) (hb : b ≤ 10) (k : Nat) :
    m * b ^ k < 10 ^ (53 + k) := by
  have hm' : m < 10 ^ 53 := Nat.lt_trans hm (by decide)
  calc m * b ^ k
      ≤ m * 10 ^ k := Nat.mul_le_mul_left m (Nat.pow_le_pow_left hb k)
    _ < 10 ^ 53 * 10 ^ k := Nat.mul_lt_mul_of_pos_right hm' (Nat.pow_pos (by decide))
    _ = 10 ^ (53 + k) := (Nat.pow_add 10 53 k).symm

/-- Every binary place adds one decimal digit at most, on either side of the point. -/
theorem length_digits_ofScaled {m : Nat} (hm : m < 2 ^ 53) (e : Int) :
    (ofScaled m e).digits.length ≤ 53 + e.natAbs := by
  rw [length_digits_le_iff (Nat.lt_of_lt_of_le (by decide) (Nat.le_add_right 53 _))]
  unfold ofScaled
  split
  · next h =>
    have places : e.natAbs = e.toNat := by omega
    rw [places]
    exact mul_pow_lt hm (by decide) _
  · next h =>
    have places : e.natAbs = (-e).toNat := by omega
    rw [places]
    exact mul_pow_lt hm (by decide) _

theorem exponent_ofScaled (m : Nat) (e : Int) : (ofScaled m e).exponent = min e 0 := by
  unfold ofScaled
  split
  · next h => exact (Int.min_eq_right h).symm
  · next h => exact (Int.min_eq_left (Int.le_of_not_le h)).symm

end Decimal

/-- The power of ten of a double is far below the bound. -/
theorem Binary64.natAbs_point_shortest_lt {bits m : Nat} {e : Int} (h : IsFinite bits m e) :
    ((shortest m e).digits.length + (shortest m e).exponent - 1).natAbs <
      Numeral.exponentLimit := by
  obtain ⟨finite, least, lt, -, sum⟩ := h
  rw [infinityBits_eq] at finite
  rw [fieldWeight_eq] at lt sum
  change -1074 ≤ e at least
  change (e - -1074).toNat * 2 ^ 52 + m = bits at sum
  have length := Decimal.length_digits_ofScaled lt e
  have exponent := Decimal.exponent_ofScaled m e
  obtain ⟨exponent_le, point_le⟩ := Decimal.cuts_shorten
    (Decimal.readsBack (magnitudeBits (scaled m e))) (Decimal.ofScaled m e)
  have positive := (shortest m e).length_digits_pos
  change _ < 65536
  unfold shortest at positive ⊢
  omega

/-! ## One digit in front of the point -/

/-- The digits of a decimal that is not zero. -/
theorem stripZeros_ne_nil {d : Decimal} (h : d.coefficient ≠ 0) :
    Layout.stripZeros d.digits ≠ [] := by
  intro hnil
  obtain ⟨n, hn⟩ := exists_zeros d.digits
  have value : Nat.ofDigitChars 10 d.digits 0 = d.coefficient := Nat.ofDigitChars_ten_toDigits
  rw [hn, hnil, List.nil_append, Nat.ofDigitChars_replicate_zero] at value
  exact h (by rw [← value, Nat.mul_zero])

theorem reads_scientificText {digits : List Char} (hne : digits ≠ [])
    (hd : ∀ c ∈ digits, c.isDigit = true) {point : Int}
    (h : (point - 1).natAbs < Numeral.exponentLimit) :
    Reads (Layout.scientificText digits point) (digitsValue digits (point - digits.length)) := by
  obtain ⟨first, rest, rfl⟩ := List.exists_cons_of_ne_nil hne
  have row : Positional [first] rest
      ([first] ++ if (first :: rest).length ≤ 1 then [] else '.' :: rest) := by
    refine ⟨List.cons_ne_nil _ _, hd, ?_⟩
    split
    · next short =>
      exact .inl ⟨rfl, List.length_eq_zero_iff.1 (Nat.le_zero.1 (Nat.le_of_succ_le_succ short))⟩
    · exact .inr rfl
  have mark : ∀ c ∈ ('e' :: (toString (point - 1)).toList).head?, c.isDigit = false ∧ c ≠ '.' := by
    rintro c ⟨⟩
    exact ⟨rfl, by decide⟩
  have reads := row.reads mark (Numeral.exponent?_toString h)
  have places : point - 1 - rest.length = point - (first :: rest).length := by
    rw [List.length_cons]
    omega
  rwa [places] at reads

end Reckoner
