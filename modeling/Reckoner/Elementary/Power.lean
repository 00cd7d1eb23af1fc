import Reckoner.Elementary.Exponential

/-!
# Roots and powers

Square roots are enclosed by whole-number roots. A power is `exp (y · ln x)` in general. It can be a
double, or lie in the middle between two, only if it is a rational of moderate length, and such
powers are computed exactly.
-/

namespace Reckoner

/-- The whole square root of `n`, from its binary digits above the last `i`, which make `root`. -/
def wholeRootFrom (n : Nat) : Nat → Nat → Nat
  | 0, root => root
  | i + 1, root =>
    let larger := root + 2 ^ i
    wholeRootFrom n i (if larger * larger ≤ n then larger else root)

/-- The largest number whose square is at most `n`. -/
def wholeRoot (n : Nat) : Nat :=
  wholeRootFrom n (n.log2 / 2 + 1) 0

/-- Encloses the square root of a positive rational. -/
def Enclosure.sqrt (precision : Nat) (x : Rat) : Enclosure :=
  let shift : Int := precision - Binary64.floorLog2 x / 2
  let scaled := x * 4 ^ shift
  let root : Rat := wholeRoot scaled.floor.toNat
  let upper := if root * root = scaled then root else root + 1
  ⟨root / 2 ^ shift, upper / 2 ^ shift⟩

/-! ## Exact powers -/

/-- The square root of a positive rational, if it is rational. -/
def exactSqrt? (x : Rat) : Option Rat :=
  let root : Rat := wholeRoot x.num.toNat / wholeRoot x.den
  if root * root = x then some root else none

/-- The `2 ^ k`-th root of a positive rational, if it is rational. -/
def exactRoot? (x : Rat) : Nat → Option Rat
  | 0 => some x
  | k + 1 => do exactRoot? (← exactSqrt? x) k

/-- The length in bits up to which a power is computed exactly. Doubles and the numbers in the
middle between two are shorter. -/
def exactPowerLimit : Nat := 4096

/-- The power `x ^ y` of a positive rational for a `y` whose denominator is a power of two, if it is
rational and of moderate length. -/
def exactPower? (x y : Rat) : Option Rat := do
  let root ← exactRoot? x y.den.log2
  if (root.num.toNat.log2 + root.den.log2) * y.num.natAbs ≤ exactPowerLimit then
    return root ^ y.num
  else none

end Reckoner
