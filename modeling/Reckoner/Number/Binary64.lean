/-!
# Doubles as exact numbers

A double is not a number, a signed infinity, or `± mantissa · 2 ^ exponent`; `view` reads that off
its bits. Going back, `ofMagnitude` gives the double nearest to an exact non-negative rational, a
tie going to the even mantissa, under a given sign. Numerals, whole-number rounding and the
elementary functions all compute an exact rational first and end in this one rounding.
-/

namespace Reckoner.Binary64

/-- What a double stands for. A finite double is `mantissa · 2 ^ exponent` under its sign, which a
zero has too. -/
inductive View where
  | nan
  | infinite (negative : Bool)
  | finite (negative : Bool) (mantissa : Nat) (exponent : Int)
deriving DecidableEq

def signWeight : Nat := 1 <<< 63

/-- Weight of the lowest bit of the exponent field; the fraction lies below it. -/
def fieldWeight : Nat := 1 <<< 52

/-- The exponent of the least positive double. -/
def leastExponent : Int := -1074

/-- The magnitude bits of an infinity, above those of every finite double. -/
def infinityBits : Nat := 2047 * fieldWeight

/-- The class, sign, mantissa and exponent of a double. -/
def view (v : Float) : View :=
  let bits := v.toBits.toNat
  let negative := decide (signWeight ≤ bits)
  let magnitude := bits % signWeight
  let field := magnitude / fieldWeight
  let fraction := magnitude % fieldWeight
  if infinityBits < magnitude then .nan
  else if infinityBits = magnitude then .infinite negative
  -- a subnormal has no leading bit, but the exponent of the field above
  else if field = 0 then .finite negative fraction leastExponent
  else .finite negative (fieldWeight + fraction) (leastExponent + (field - 1 : Nat))

def scaled (mantissa : Nat) (exponent : Int) : Rat :=
  mantissa * 2 ^ exponent

/-! ## Rounding -/

/-- The exponent of the largest power of two that is at most `x`, for a positive `x`. -/
def floorLog2 (x : Rat) : Int :=
  let estimate : Int := x.num.natAbs.log2 - x.den.log2
  if x < 2 ^ estimate then estimate - 1 else estimate

/-- The whole number nearest to `x`, the even one of two. -/
def nearestEven (x : Rat) : Int :=
  let below := x.floor
  let rest := x - below
  if rest < 1 / 2 then below
  else if 1 / 2 < rest then below + 1
  else if below % 2 = 0 then below else below + 1

/-- The exponent of the doubles around `x`: 53 bits of mantissa, as far as the least exponent
allows. -/
def gridExponent (x : Rat) : Int :=
  max leastExponent (floorLog2 x - 52)

/-- The magnitude bits of the double nearest to `x`, for a non-negative `x`. A mantissa that rounds
up to `2 ^ 53` carries into the exponent field, and what lies past the largest double becomes
infinity. -/
def magnitudeBits (x : Rat) : Nat :=
  if x = 0 then 0
  else
    let exponent := gridExponent x
    let mantissa := nearestEven (x / 2 ^ exponent)
    min infinityBits ((exponent - leastExponent).toNat * fieldWeight + mantissa.toNat)

/-- The double with the given sign whose magnitude is nearest to `x`, for a non-negative `x`. -/
def ofMagnitude (negative : Bool) (x : Rat) : Float :=
  Float.ofBits (UInt64.ofNat ((if negative then signWeight else 0) + magnitudeBits x))

/-- The double nearest to `x`; zero has the positive sign. -/
def ofRat (x : Rat) : Float :=
  ofMagnitude (decide (x < 0)) x.abs

def infinity (negative : Bool) : Float :=
  Float.ofBits (UInt64.ofNat ((if negative then signWeight else 0) + infinityBits))

def nan : Float :=
  Float.ofBits (UInt64.ofNat (infinityBits + fieldWeight / 2))

end Reckoner.Binary64
