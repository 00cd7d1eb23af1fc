import Reckoner.Elementary.Enclosure

/-!
# Exponential and logarithm

`exp` is reduced to `2 ^ k · exp r` with a small `r`, and `ln` to `e · ln 2 + ln m` with `m` near
one; the series for what is left is summed with enclosures. The hyperbolic functions are quotients
and sums of exponentials, and of their own series near zero, where those would cancel.
-/

namespace Reckoner

namespace Enclosure

/-- Encloses `z · (1 + c/3 + c²/5 + …)` for a `c` of magnitude at most one half: the inverse
hyperbolic tangent of `z` if `c = z²`, and its arc tangent if `c = -z²`. -/
def arcSeries (precision : Nat) (z c : Rat) : Enclosure :=
  let step (k : Nat) (tail : Enclosure) : Enclosure :=
    (exact (2 * k - 1 : Rat)⁻¹ + scale c tail).coarsen precision
  (scale z (horner step (terms precision) ⟨0, 2⟩)).coarsen precision

/-- Encloses the natural logarithm of two, twice the inverse hyperbolic tangent of one third. -/
def lnTwo (precision : Nat) : Enclosure :=
  scale 2 (arcSeries precision (1 / 3) (1 / 9))

/-- Encloses `exp r` for an `r` of magnitude at most one half. -/
def expSeries (precision : Nat) (r : Enclosure) : Enclosure :=
  let step (k : Nat) (tail : Enclosure) : Enclosure :=
    (exact 1 + scale (k : Rat)⁻¹ (r * tail)).coarsen precision
  horner step (terms precision) ⟨1 / 2, 2⟩

def exp (precision : Nat) (x : Enclosure) : Enclosure :=
  let k := Binary64.nearestEven (x.lower * (1000 / 693))
  let r := (x - scale k (lnTwo (precision + 16))).coarsen precision
  scale (2 ^ k) (expSeries precision r)

/-- Encloses the natural logarithm of a positive rational. -/
def ln (precision : Nat) (x : Rat) : Enclosure :=
  let floor := Binary64.floorLog2 x
  let e := if x / 2 ^ floor < 7 / 5 then floor else floor + 1
  let m := x / 2 ^ e
  let z := (m - 1) / (m + 1)
  (scale e (lnTwo precision) + scale 2 (arcSeries precision z (z * z))).coarsen precision

/-! ## Series with every other term -/

/-- Encloses `r · (1 + c/(2·3) + c²/(2·3·4·5) + …)` for an `r` of magnitude at most one: the
hyperbolic sine if `c = r²`, and the sine if `c = -r²`. -/
def oddSeries (precision : Nat) (r c : Enclosure) : Enclosure :=
  let step (k : Nat) (tail : Enclosure) : Enclosure :=
    (exact 1 + scale (2 * k * (2 * k + 1) : Rat)⁻¹ (c * tail)).coarsen precision
  (r * horner step (terms precision) ⟨1 / 2, 2⟩).coarsen precision

/-- Encloses `1 + c/(1·2) + c²/(1·2·3·4) + …` for a `c` of magnitude at most one: the hyperbolic
cosine of `r` if `c = r²`, and the cosine if `c = -r²`. -/
def evenSeries (precision : Nat) (c : Enclosure) : Enclosure :=
  let step (k : Nat) (tail : Enclosure) : Enclosure :=
    (exact 1 + scale ((2 * k - 1) * (2 * k) : Rat)⁻¹ (c * tail)).coarsen precision
  horner step (terms precision) ⟨1 / 2, 2⟩

/-! ## Hyperbolic functions -/

/-- Encloses the hyperbolic sine and cosine of a positive rational. -/
def sinhCosh (precision : Nat) (x : Rat) : Enclosure × Enclosure :=
  if x < 1 then
    (oddSeries precision (exact x) (exact (x * x)), evenSeries precision (exact (x * x)))
  else
    let growing := exp precision (exact x)
    let shrinking := growing.inv
    (scale (1 / 2) (growing - shrinking), scale (1 / 2) (growing + shrinking))

end Enclosure

end Reckoner
