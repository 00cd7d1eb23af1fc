import Reckoner.Number.Binary64

/-!
# The fewest digits that read back

Every finite double is a decimal with finitely many digits, often hundreds. `Binary64.shortest` cuts
that expansion at the first digit where one of the two neighbouring decimals still rounds to the
same double, and takes the nearer of the two if both do. The search ends at the full expansion,
which always reads back.
-/

namespace Reckoner

structure Decimal where
  coefficient : Nat
  exponent : Int
deriving DecidableEq

namespace Decimal

def toRat (d : Decimal) : Rat :=
  d.coefficient * 10 ^ d.exponent

/-- The decimal equal to `mantissa · 2 ^ exponent`. -/
def ofScaled (mantissa : Nat) (exponent : Int) : Decimal :=
  if 0 ≤ exponent then ⟨mantissa * Nat.pow 2 exponent.toNat, 0⟩
  else ⟨mantissa * Nat.pow 5 (-exponent).toNat, exponent⟩

def digits (d : Decimal) : List Char :=
  Nat.toDigits 10 d.coefficient

/-- `d` with its last `dropped` digits cut off. -/
def cutBelow (d : Decimal) (dropped : Nat) : Decimal :=
  ⟨d.coefficient / Nat.pow 10 dropped, d.exponent + dropped⟩

/-- The next decimal after `cutBelow` on the same grid. -/
def cutAbove (d : Decimal) (dropped : Nat) : Decimal :=
  ⟨d.coefficient / Nat.pow 10 dropped + 1, d.exponent + dropped⟩

/-- The neighbour of `d` without its last `dropped` digits that satisfies `accept`: the nearer one
if both do, and the upper one if they are equally near. -/
def neighbour? (accept : Decimal → Bool) (d : Decimal) (dropped : Nat) : Option Decimal :=
  let below := d.cutBelow dropped
  let above := d.cutAbove dropped
  let cut := d.coefficient % Nat.pow 10 dropped
  match accept below, accept above with
  | true, true => some (if 2 * cut < Nat.pow 10 dropped then below else above)
  | true, false => some below
  | false, true => some above
  | false, false => none

/-- The first neighbour of `d` that satisfies `accept`, dropping at most `dropped` digits and ever
fewer; `d` itself if there is none. -/
def firstNeighbour (accept : Decimal → Bool) (d : Decimal) : Nat → Decimal
  | 0 => d
  | dropped + 1 =>
    (neighbour? accept d (dropped + 1)).getD (firstNeighbour accept d dropped)

/-- The decimal with the fewest digits near `d` that satisfies `accept`. -/
def shorten (accept : Decimal → Bool) (d : Decimal) : Decimal :=
  firstNeighbour accept d (d.digits.length - 1)

end Decimal

/-- Whether `d` is nearest to the double of magnitude bits `bits`. -/
def Decimal.readsBack (bits : Nat) (d : Decimal) : Bool :=
  Binary64.magnitudeBits d.toRat == bits

/-- The decimal with the fewest digits that reads back to the double `mantissa · 2 ^ exponent`. -/
def Binary64.shortest (mantissa : Nat) (exponent : Int) : Decimal :=
  (Decimal.ofScaled mantissa exponent).shorten
    (Decimal.readsBack (magnitudeBits (scaled mantissa exponent)))

end Reckoner
