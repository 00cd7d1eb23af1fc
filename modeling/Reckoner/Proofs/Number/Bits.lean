import Mathlib
import Reckoner.Number.Binary64

/-!
# The bits of a double

A double is given by its sign and the bits of its magnitude (`eq_ofBits`), and its view tells what
these bits are (`viewed`): those of the one double that is no number, those of an infinity, or a
mantissa under the weight of its exponent (`IsFinite`).
-/

namespace Reckoner.Binary64

open Float.Model Float.Model.UnpackedFloat

theorem signWeight_eq : signWeight = 2 ^ 63 := rfl

theorem fieldWeight_eq : fieldWeight = 2 ^ 52 := rfl

theorem infinityBits_eq : infinityBits = 2047 * 2 ^ 52 := rfl

/-! ## The fields of a bit pattern -/

section Fields

variable (b : BitVec Format.binary64.numBits)

theorem toNat_unpackMantissa : (unpackMantissa b).toNat = b.toNat % 2 ^ 52 := by
  simp [unpackMantissa]

theorem toNat_unpackExponent : (unpackExponent b).toNat = b.toNat / 2 ^ 52 % 2 ^ 11 := by
  simp [unpackExponent, Nat.shiftRight_eq_div_pow]

/-- The fields of what is no number. -/
theorem unpack_of_infinityBits_lt (h : infinityBits < b.toNat % signWeight) :
    unpackExponent b = -1#_ ∧ unpackMantissa b ≠ 0#_ := by
  -- above the bits of an infinity the exponent field stays full, so the fraction is not empty
  rw [infinityBits_eq, signWeight_eq] at h
  constructor
  · refine BitVec.eq_of_toNat_eq ?_
    rw [toNat_unpackExponent]
    change b.toNat / 2 ^ 52 % 2 ^ 11 = 2047
    omega
  · intro zero
    have hzero := toNat_unpackMantissa b
    rw [zero] at hzero
    change 0 = b.toNat % 2 ^ 52 at hzero
    omega

/-- The exponent field is full exactly where no finite double is. -/
theorem isFinite_iff_unpackExponent :
    (UnpackedFloat.unpack Format.binary64 b).isFinite = true ↔ unpackExponent b ≠ -1#_ := by
  unfold UnpackedFloat.unpack
  dsimp only
  split
  · next full =>
    refine iff_of_false ?_ (fun h => h full)
    split <;> exact Bool.false_ne_true
  · next free =>
    refine iff_of_true ?_ free
    split
    · split <;> rfl
    · rfl

end Fields

/-! ## What a view says about the bits -/

/-- A double is given by its sign and the bits of its magnitude. -/
theorem eq_ofBits {v : Float} {bits : Nat} (magnitude : v.toBits.toNat % signWeight = bits) :
    v = Float.ofBits (UInt64.ofNat
      ((if decide (signWeight ≤ v.toBits.toNat) then signWeight else 0) + bits)) := by
  have lt : v.toBits.toNat < 2 ^ 64 := v.toBits.toNat_lt
  have whole : (if decide (signWeight ≤ v.toBits.toNat) then signWeight else 0) + bits =
      v.toBits.toNat := by
    rw [signWeight_eq] at *
    by_cases sign : 2 ^ 63 ≤ v.toBits.toNat
    · rw [if_pos (decide_eq_true sign)]
      omega
    · rw [if_neg (by simpa using sign)]
      omega
  rw [whole, UInt64.ofNat_toNat, Float.ofBits_toBits]

/-- `mantissa · 2 ^ exponent` is what the magnitude bits of a finite double stand for. -/
structure IsFinite (bits mantissa : Nat) (exponent : Int) : Prop where
  finite : bits < infinityBits
  least : leastExponent ≤ exponent
  lt : mantissa < 2 * fieldWeight
  full : leastExponent < exponent → fieldWeight ≤ mantissa
  sum : (exponent - leastExponent).toNat * fieldWeight + mantissa = bits

/-- The bits of a double that has a view. -/
inductive Viewed (v : Float) : View → Prop where
  | nan (magnitude : infinityBits < v.toBits.toNat % signWeight) : Viewed v .nan
  | infinite (magnitude : v.toBits.toNat % signWeight = infinityBits) :
      Viewed v (.infinite (decide (signWeight ≤ v.toBits.toNat)))
  | finite {mantissa : Nat} {exponent : Int}
      (magnitude : IsFinite (v.toBits.toNat % signWeight) mantissa exponent) :
      Viewed v (.finite (decide (signWeight ≤ v.toBits.toNat)) mantissa exponent)

theorem viewed (v : Float) : Viewed v (view v) := by
  unfold view
  dsimp only
  split
  · next h => exact .nan h
  split
  · next h => exact .infinite h.symm
  split
  · refine .finite ?_
    constructor <;> simp only [fieldWeight_eq] at * <;> omega
  · refine .finite ?_
    constructor <;> simp only [fieldWeight_eq] at * <;> omega

theorem isFinite_iff (v : Float) :
    v.isFinite = true ↔ v.toBits.toNat % signWeight < infinityBits := by
  refine (isFinite_iff_unpackExponent v.toBits.toBitVec).trans ?_
  rw [ne_eq, ← BitVec.toNat_inj, toNat_unpackExponent, infinityBits_eq, signWeight_eq]
  change ¬ v.toBits.toNat / 2 ^ 52 % 2 ^ 11 = 2047 ↔ _
  omega

/-- A finite double without a sign is a mantissa and an exponent. -/
theorem exists_view_eq_finite {v : Float} (finite : v.isFinite = true)
    (unsigned : v.toBits.toNat < signWeight) :
    ∃ mantissa exponent, view v = .finite false mantissa exponent := by
  have lt := (isFinite_iff v).1 finite
  have viewed := viewed v
  generalize view v = w at viewed
  cases viewed with
  | nan magnitude => omega
  | infinite magnitude => omega
  | @finite mantissa exponent magnitude =>
    rw [decide_eq_false (Nat.not_le.2 unsigned)]
    exact ⟨mantissa, exponent, rfl⟩

theorem eq_infinity {v : Float} (magnitude : v.toBits.toNat % signWeight = infinityBits) :
    v = infinity (decide (signWeight ≤ v.toBits.toNat)) :=
  eq_ofBits magnitude

/-- There is one double that is no number. -/
theorem eq_nan {v : Float} (magnitude : infinityBits < v.toBits.toNat % signWeight) : v = nan := by
  obtain ⟨exponent, mantissa⟩ := unpack_of_infinityBits_lt v.toBits.toBitVec magnitude
  have packed : v.toBits.toBitVec = packedNaN Format.binary64 :=
    v.toModel.valid.eq_packedNaN exponent mantissa
  have bits : v.toBits = UInt64.ofNat (infinityBits + fieldWeight / 2) :=
    UInt64.eq_of_toBitVec_eq (packed.trans (by decide))
  rw [nan, ← bits, Float.ofBits_toBits]

end Reckoner.Binary64
