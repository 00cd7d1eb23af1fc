import Reckoner.Proofs.Number.Bits

/-!
# A double rounds to itself

Rounding finds the doubles around a rational by its binary logarithm, which `floorLog2` gives rounded
down (`floorLog2_eq_log`). Around the magnitude of a finite double these have the exponent of the
double itself (`gridExponent_scaled`). On them its mantissa is whole, so that there is nothing to
round (`magnitudeBits_scaled`).
-/

namespace Reckoner.Binary64

/-! ## Powers of two around a rational -/

theorem log2_bounds {n : Nat} (hn : n ≠ 0) :
    (2 : ℚ) ^ (n.log2 : Int) ≤ n ∧ (n : ℚ) < 2 ^ ((n.log2 : Int) + 1) := by
  have low : 2 ^ n.log2 ≤ n := Nat.log2_self_le hn
  have high : n < 2 ^ (n.log2 + 1) := Nat.lt_log2_self
  constructor
  · rw [zpow_natCast]
    exact_mod_cast low
  · rw [← Nat.cast_succ, zpow_natCast]
    exact_mod_cast high

theorem floorLog2_spec {x : ℚ} (hx : 0 < x) :
    (2 : ℚ) ^ floorLog2 x ≤ x ∧ x < 2 ^ (floorLog2 x + 1) := by
  have hnum : 0 < x.num := Rat.num_pos.2 hx
  have hden : (0 : ℚ) < x.den := by exact_mod_cast x.den_pos
  have hmul : x * x.den = x.num.natAbs := by
    rw [Rat.mul_den_eq_num, Nat.cast_natAbs, abs_of_pos hnum]
  obtain ⟨nlow, nhigh⟩ := log2_bounds (n := x.num.natAbs) (by omega)
  obtain ⟨dlow, dhigh⟩ := log2_bounds x.den_nz
  unfold floorLog2
  dsimp only
  generalize (x.num.natAbs.log2 : Int) = n at *
  generalize (x.den.log2 : Int) = d at *
  -- the difference of the two logarithms is at most one too large, and never too small
  have below : (2 : ℚ) ^ (n - d - 1) ≤ x := by
    refine le_of_mul_le_mul_right ?_ hden
    calc (2 : ℚ) ^ (n - d - 1) * x.den
        ≤ 2 ^ (n - d - 1) * 2 ^ (d + 1) := by gcongr
      _ = 2 ^ n := by rw [← zpow_add₀ two_ne_zero]; congr 1; omega
      _ ≤ x.num.natAbs := nlow
      _ = x * x.den := hmul.symm
  have above : x < 2 ^ (n - d + 1) := by
    refine lt_of_mul_lt_mul_right ?_ hden.le
    calc x * x.den = x.num.natAbs := hmul
      _ < 2 ^ (n + 1) := nhigh
      _ = 2 ^ (n - d + 1) * 2 ^ d := by rw [← zpow_add₀ two_ne_zero]; congr 1; omega
      _ ≤ 2 ^ (n - d + 1) * x.den := by gcongr
  split
  · exact ⟨below, by rwa [Int.sub_add_cancel]⟩
  · next h => exact ⟨not_lt.1 h, above⟩

theorem floorLog2_eq_log {x : ℚ} (hx : 0 < x) : floorLog2 x = Int.log 2 x := by
  obtain ⟨low, high⟩ := floorLog2_spec hx
  have hlow := (Int.zpow_le_iff_le_log one_lt_two hx).1 low
  have hhigh := (Int.lt_zpow_iff_log_lt one_lt_two hx).1 high
  omega

/-! ## Rounding what needs none -/

section Scaled

variable {m : Nat} {e : Int}

theorem scaled_pos (hm : m ≠ 0) : 0 < scaled m e :=
  mul_pos (Nat.cast_pos.2 (Nat.pos_of_ne_zero hm)) (zpow_pos two_pos e)

theorem scaled_div : scaled m e / 2 ^ e = m :=
  mul_div_cancel_right₀ _ (zpow_ne_zero e two_ne_zero)

theorem floorLog2_scaled (hm : m ≠ 0) : floorLog2 (scaled m e) = m.log2 + e := by
  obtain ⟨low, high⟩ := log2_bounds hm
  have hx := scaled_pos (e := e) hm
  have low' : (2 : ℚ) ^ (m.log2 + e) ≤ scaled m e := by
    rw [scaled, zpow_add₀ two_ne_zero]
    gcongr
  have high' : scaled m e < 2 ^ (m.log2 + e + 1) := by
    rw [scaled, add_right_comm, zpow_add₀ two_ne_zero]
    gcongr
  rw [floorLog2_eq_log hx]
  have hlow := (Int.zpow_le_iff_le_log one_lt_two hx).1 low'
  have hhigh := (Int.lt_zpow_iff_log_lt one_lt_two hx).1 high'
  omega

/-- A whole number is the nearest one to itself. -/
theorem nearestEven_natCast (n : Nat) : nearestEven n = n := by
  have hfloor : (n : ℚ).floor = n := Rat.floor_intCast n
  unfold nearestEven
  dsimp only
  rw [hfloor, if_pos]
  norm_num

theorem gridExponent_scaled (hm : m ≠ 0) (least : leastExponent ≤ e)
    (lt : m < 2 * fieldWeight) (full : leastExponent < e → fieldWeight ≤ m) :
    gridExponent (scaled m e) = e := by
  have upper : m.log2 < 53 := (Nat.log2_lt hm).2 lt
  have lower : fieldWeight ≤ m → 52 ≤ m.log2 := fun h => (Nat.le_log2 hm).2 h
  rw [gridExponent, floorLog2_scaled hm]
  rcases lt_or_eq_of_le least with h | rfl
  · have := lower (full h)
    omega
  · omega

/-- **A double is nearest to itself.** -/
theorem magnitudeBits_scaled {bits : Nat} (h : IsFinite bits m e) :
    magnitudeBits (scaled m e) = bits := by
  obtain ⟨finite, least, lt, full, sum⟩ := h
  unfold magnitudeBits
  split
  · next zero =>
    have hm : m = 0 := by
      by_contra hm
      exact (scaled_pos hm).ne' zero
    subst hm
    have he : leastExponent = e := by
      by_contra hne
      exact absurd (full (lt_of_le_of_ne least hne)) (by decide)
    rw [← sum, he]
    simp
  · next nonzero =>
    have hm : m ≠ 0 := by
      rintro rfl
      exact nonzero (zero_mul _)
    dsimp only
    rw [gridExponent_scaled hm least lt full, scaled_div, nearestEven_natCast, Int.toNat_natCast,
      sum, Nat.min_eq_right finite.le]

end Scaled

/-- What rounds like the magnitude of a finite double rounds to the double. -/
theorem eq_ofMagnitude {v : Float} {m : Nat} {e : Int}
    (h : IsFinite (v.toBits.toNat % signWeight) m e) {x : ℚ}
    (hx : magnitudeBits x = magnitudeBits (scaled m e)) :
    v = ofMagnitude (decide (signWeight ≤ v.toBits.toNat)) x := by
  rw [magnitudeBits_scaled h] at hx
  rw [ofMagnitude, hx]
  exact eq_ofBits rfl

end Reckoner.Binary64
