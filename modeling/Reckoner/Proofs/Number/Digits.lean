import Reckoner.Number.Layout
import Reckoner.Proofs.Number.Rounding
import Reckoner.Proofs.Text.Numeral

/-!
# Rows of digits

A decimal is set out as a row of digits with a point among them, behind them or in front. Neither
the zeros that are left out of the row nor those that are filled in change the number that it spells
(`Spells`), wherever the point stands (`spells_positionalText`). The decimal itself was chosen
because a double is the nearest to it (`magnitudeBits_shortest`).
-/

namespace Reckoner

/-! ## The shortest decimal -/

namespace Decimal

variable {accept : Decimal → Bool} {d : Decimal}

theorem accept_of_neighbour? {dropped : Nat} {d' : Decimal}
    (h : neighbour? accept d dropped = some d') : accept d' = true := by
  unfold neighbour? at h
  dsimp only at h
  split at h
  · next below above =>
    cases h
    split
    · exact below
    · exact above
  · next below _ =>
    cases h
    exact below
  · next _ above =>
    cases h
    exact above
  · cases h

theorem accept_firstNeighbour (hd : accept d = true) (dropped : Nat) :
    accept (firstNeighbour accept d dropped) = true := by
  induction dropped with
  | zero => exact hd
  | succ dropped ih =>
    rw [firstNeighbour]
    cases h : neighbour? accept d (dropped + 1) with
    | none => exact ih
    | some d' => exact accept_of_neighbour? h

theorem accept_shorten (hd : accept d = true) : accept (d.shorten accept) = true :=
  accept_firstNeighbour hd _

theorem toRat_ofScaled (m : Nat) (e : Int) :
    (ofScaled m e).toRat = Binary64.scaled m e := by
  unfold ofScaled Binary64.scaled
  split
  · next h =>
    obtain ⟨k, rfl⟩ := Int.eq_ofNat_of_zero_le h
    simp [toRat]
  · next h =>
    obtain ⟨k, rfl⟩ : ∃ k : Nat, e = -k := ⟨(-e).toNat, by omega⟩
    have hten : (10 : ℚ) ^ k = 5 ^ k * 2 ^ k := by rw [← mul_pow]; norm_num
    simp [toRat, hten]
    field_simp

end Decimal

theorem Binary64.magnitudeBits_shortest (m : Nat) (e : Int) :
    magnitudeBits (shortest m e).toRat = magnitudeBits (scaled m e) := by
  have full : Decimal.readsBack (magnitudeBits (scaled m e)) (Decimal.ofScaled m e) = true := by
    rw [Decimal.readsBack, Decimal.toRat_ofScaled, beq_self_eq_true]
  exact eq_of_beq (Decimal.accept_shorten full)

/-! ## Digits and their value -/

/-- The number that digits stand for, the last of them having the weight `10 ^ exponent`. -/
def digitsValue (digits : List Char) (exponent : Int) : ℚ :=
  Nat.ofDigitChars 10 digits 0 * 10 ^ exponent

theorem digitsValue_zeros_append (n : Nat) (digits : List Char) (exponent : Int) :
    digitsValue (List.replicate n '0' ++ digits) exponent = digitsValue digits exponent := by
  simp [digitsValue, Nat.ofDigitChars_append]

theorem digitsValue_append_zeros (n : Nat) (digits : List Char) (exponent : Int) :
    digitsValue (digits ++ List.replicate n '0') exponent = digitsValue digits (exponent + n) := by
  rw [digitsValue, digitsValue, Nat.ofDigitChars_append, Nat.ofDigitChars_replicate_zero,
    zpow_add₀ (by norm_num), zpow_natCast]
  push_cast
  ring

theorem exists_zeros (digits : List Char) :
    ∃ n, digits = Layout.stripZeros digits ++ List.replicate n '0' := by
  have split := List.takeWhile_append_dropWhile (p := (· = '0')) (l := digits.reverse)
  have zeros : digits.reverse.takeWhile (· = '0') =
      List.replicate (digits.reverse.takeWhile (· = '0')).length '0' := by
    refine List.eq_replicate_of_mem fun c hc => ?_
    simpa using List.all_eq_true.1 List.all_takeWhile c hc
  refine ⟨(digits.reverse.takeWhile (· = '0')).length, ?_⟩
  rw [zeros] at split
  have := congrArg List.reverse split
  simpa [Layout.stripZeros] using this.symm

/-- Zeros behind the last digit can be left out where the point is counted from the first. -/
theorem digitsValue_stripZeros (digits : List Char) (point : Int) :
    digitsValue (Layout.stripZeros digits) (point - (Layout.stripZeros digits).length) =
      digitsValue digits (point - digits.length) := by
  obtain ⟨n, hn⟩ := exists_zeros digits
  generalize Layout.stripZeros digits = stripped at *
  subst hn
  rw [digitsValue_append_zeros, List.length_append, List.length_replicate]
  congr 1
  push_cast
  ring

theorem Decimal.digitsValue_digits (d : Decimal) : digitsValue d.digits d.exponent = d.toRat := by
  rw [digitsValue, digits, Nat.ofDigitChars_ten_toDigits, toRat]

/-! ## Rows of digits with a point -/

/-- `text` is `whole`, which is digits, and a point and further digits behind it, if any. -/
structure Positional (whole fraction text : List Char) : Prop where
  ne_nil : whole ≠ []
  isDigit : ∀ c ∈ whole ++ fraction, c.isDigit = true
  text_eq : text = whole ∧ fraction = [] ∨ text = whole ++ '.' :: fraction

/-- `text` is a row of digits with the value `x`. -/
def Spells (text : List Char) (x : ℚ) : Prop :=
  ∃ whole fraction, Positional whole fraction text ∧
    digitsValue (whole ++ fraction) (-fraction.length) = x

theorem isDigit_of_mem_zeros {n : Nat} {c : Char} (h : c ∈ List.replicate n '0') :
    c.isDigit = true := by
  rw [List.eq_of_mem_replicate h]
  rfl

/-- A whole number, with `.0` behind it or not. -/
theorem spells_whole (layout : Layout) {whole : List Char} (hne : whole ≠ [])
    (hd : ∀ c ∈ whole, c.isDigit = true) :
    Spells (whole ++ if layout.pointed then ['.', '0'] else []) (digitsValue whole 0) := by
  cases layout.pointed with
  | false =>
    refine ⟨whole, [], ⟨hne, by simpa using hd, .inl ⟨?_, rfl⟩⟩, ?_⟩
    · exact List.append_nil whole
    · rw [List.append_nil]
      rfl
  | true =>
    refine ⟨whole, ['0'], ⟨hne, ?_, .inr rfl⟩, digitsValue_append_zeros 1 whole (-1)⟩
    exact List.forall_mem_append.2 ⟨hd, List.forall_mem_singleton.2 rfl⟩

section Point

variable {digits : List Char} (hd : ∀ c ∈ digits, c.isDigit = true) {point : Int}

include hd

/-- The point in front of the digits. -/
theorem spells_zeros_append (before : point ≤ 0) :
    Spells ('0' :: '.' :: List.replicate (-point).toNat '0' ++ digits)
      (digitsValue digits (point - digits.length)) := by
  refine ⟨['0'], List.replicate (-point).toNat '0' ++ digits, ⟨by simp, ?_, .inr rfl⟩, ?_⟩
  · intro c hc
    rw [List.mem_append, List.mem_append, List.mem_singleton] at hc
    rcases hc with rfl | hc | hc
    · rfl
    · exact isDigit_of_mem_zeros hc
    · exact hd c hc
  · refine (digitsValue_zeros_append 1 _ _).trans ?_
    rw [digitsValue_zeros_append, List.length_append, List.length_replicate]
    congr 1
    omega

/-- The point behind the digits, where it may be left out. -/
theorem spells_append_zeros (layout : Layout) (after : ¬ point ≤ 0)
    (behind : digits.length ≤ point) :
    Spells (digits ++ List.replicate (point.toNat - digits.length) '0' ++
        if layout.pointed then ['.', '0'] else [])
      (digitsValue digits (point - digits.length)) := by
  have value : digitsValue (digits ++ List.replicate (point.toNat - digits.length) '0') 0 =
      digitsValue digits (point - digits.length) := by
    rw [digitsValue_append_zeros]
    congr 1
    omega
  rw [← value]
  refine spells_whole layout ?_ ?_
  · intro hnil
    have := congrArg List.length hnil
    rw [List.length_append, List.length_replicate, List.length_nil] at this
    omega
  · exact List.forall_mem_append.2 ⟨hd, fun c hc => isDigit_of_mem_zeros hc⟩

/-- The point between two digits. -/
theorem spells_take_drop (after : ¬ point ≤ 0) (within : ¬ digits.length ≤ point) :
    Spells (digits.take point.toNat ++ '.' :: digits.drop point.toNat)
      (digitsValue digits (point - digits.length)) := by
  refine ⟨digits.take point.toNat, digits.drop point.toNat, ⟨?_, ?_, .inr rfl⟩, ?_⟩
  · intro hnil
    have := congrArg List.length hnil
    rw [List.length_take, List.length_nil] at this
    omega
  · rwa [List.take_append_drop]
  · rw [List.take_append_drop, List.length_drop]
    congr 1
    omega

/-- Wherever the point stands, the digits keep their value. -/
theorem spells_positionalText (layout : Layout) :
    Spells (layout.positionalText digits point) (digitsValue digits (point - digits.length)) := by
  unfold Layout.positionalText
  split
  · next before => exact spells_zeros_append hd before
  split
  · next after behind => exact spells_append_zeros hd layout after behind
  · next after within => exact spells_take_drop hd after within

end Point

/-! ## Reading a row of digits -/

/-- `text` begins with a digit, and it is a decimal numeral with the value `x`. -/
structure Reads (text : List Char) (x : ℚ) : Prop where
  head : ∃ d rest, text = d :: rest ∧ d.isDigit = true
  value : ∀ negative, ∃ significand exponent, Numeral.decimal? negative text =
    some (.decimal negative significand exponent) ∧ (significand : ℚ) * 10 ^ exponent = x

theorem Reads.readFloat? {text : List Char} {x : ℚ} (h : Reads text x) (negative : Bool) :
    readFloat? (Layout.signText negative ++ text) = some (Binary64.ofMagnitude negative x) := by
  obtain ⟨significand, exponent, decimal, rfl⟩ := h.value negative
  obtain ⟨d, rest, rfl, hd⟩ := h.head
  have parsed : Numeral.parse? (Layout.signText negative ++ d :: rest) =
      Numeral.decimal? negative (d :: rest) := by
    cases negative with
    | false => exact Numeral.parse?_of_isDigit hd rest
    | true => exact Numeral.unsigned?_of_isDigit true hd rest
  rw [Reckoner.readFloat?, parsed, decimal]
  rfl

namespace Positional

variable {whole fraction text : List Char} (h : Positional whole fraction text)

include h

/-- A row of digits and the power of ten behind it. -/
theorem decimal? {behind : List Char} {exponent : Int}
    (hhead : ∀ c ∈ behind.head?, c.isDigit = false ∧ c ≠ '.')
    (hpower : Numeral.exponent? behind = some exponent) (negative : Bool) :
    Numeral.decimal? negative (text ++ behind) =
      some (.decimal negative (Nat.ofDigitChars 10 (whole ++ fraction) 0)
        (exponent - fraction.length)) := by
  obtain ⟨rest, hsplit, hrest⟩ := Numeral.exists_split h.isDigit h.text_eq hhead
  have some : (whole.isEmpty && fraction.isEmpty) = false := by
    simp [h.ne_nil]
  unfold Numeral.decimal?
  simp only [hsplit, hrest, some, hpower]
  rfl

theorem exists_digit : ∃ d rest, text = d :: rest ∧ d.isDigit = true := by
  cases hw : whole with
  | nil => exact absurd hw h.ne_nil
  | cons d tail =>
    have hd : d.isDigit = true := h.isDigit d (by simp [hw])
    rcases h.text_eq with ⟨rfl, -⟩ | rfl
    · exact ⟨d, tail, hw, hd⟩
    · exact ⟨d, tail ++ '.' :: fraction, by rw [hw, List.cons_append], hd⟩

theorem isDigit_or_eq_point : ∀ c ∈ text, c.isDigit = true ∨ c = '.' := by
  obtain ⟨hwhole, hfraction⟩ := List.forall_mem_append.1 h.isDigit
  intro c hc
  rcases h.text_eq with ⟨rfl, -⟩ | rfl
  · exact .inl (hwhole c hc)
  · rcases List.mem_append.1 hc with hc | hc
    · exact .inl (hwhole c hc)
    · rcases List.mem_cons.1 hc with rfl | hc
      · exact .inr rfl
      · exact .inl (hfraction c hc)

theorem reads {behind : List Char} {exponent : Int}
    (hhead : ∀ c ∈ behind.head?, c.isDigit = false ∧ c ≠ '.')
    (hpower : Numeral.exponent? behind = some exponent) :
    Reads (text ++ behind) (digitsValue (whole ++ fraction) (exponent - fraction.length)) := by
  obtain ⟨d, rest, htext, hd⟩ := h.exists_digit
  refine ⟨⟨d, rest ++ behind, ?_, hd⟩, fun negative => ⟨_, _, h.decimal? hhead hpower negative, rfl⟩⟩
  rw [htext, List.cons_append]

end Positional

namespace Spells

variable {text : List Char} {x : ℚ} (h : Spells text x)

include h

theorem reads : Reads text x := by
  obtain ⟨whole, fraction, positional, rfl⟩ := h
  have ends : ∀ c ∈ ([] : List Char).head?, c.isDigit = false ∧ c ≠ '.' := by simp
  have reads := positional.reads ends rfl
  rwa [List.append_nil, zero_sub] at reads

theorem isDigit_or_eq_point : ∀ c ∈ text, c.isDigit = true ∨ c = '.' := by
  obtain ⟨whole, fraction, positional, -⟩ := h
  exact positional.isDigit_or_eq_point

end Spells

end Reckoner
