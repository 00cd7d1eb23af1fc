import Reckoner.Arithmetic
import Reckoner.Elementary.Circular
import Reckoner.Elementary.Power

/-!
# The arithmetic of doubles

`Arithmetic.ieee` computes with doubles by the rules of IEEE 754: no operation fails, a quotient by
zero is infinite, and what has no value is not a number. Every function gives the double nearest to
its exact value; `log` alone rounds two logarithms and then their quotient.
-/

namespace Reckoner

namespace Binary64

/-- The exact value of a finite double. -/
def value? (v : Float) : Option Rat :=
  match view v with
  | .finite negative mantissa exponent =>
    some (if negative then -scaled mantissa exponent else scaled mantissa exponent)
  | _ => none

def isNegative (v : Float) : Bool :=
  match view v with
  | .nan => false
  | .infinite negative | .finite negative _ _ => negative

/-- The magnitude of `v` under the sign of `sign`. -/
def withSign (sign v : Float) : Float :=
  if isNegative sign then -v.abs else v.abs

/-! ## Whole numbers -/

/-- Rounds a double to a whole number by `f`. The sign stays, also on a zero. -/
def toWhole (f : Rat → Int) (v : Float) : Float :=
  match value? v with
  | some x => withSign v (ofRat (f x))
  | none => v

/-- The whole number nearest to `x`, the one farther from zero of two. -/
def nearestAway (x : Rat) : Int :=
  if x < 0 then -(-x + 1 / 2).floor else (x + 1 / 2).floor

/-! ## Functions of one number -/

/-- The magnitude beyond which exponentials are past the largest double or below the least. -/
def exponentialRange : Rat := 2000

/-- The function that is `f` on finite doubles, keeps a zero, and has no value at infinity. -/
def oddCircular (f : Nat → Rat → Enclosure) (v : Float) : Float :=
  match value? v with
  | none => nan
  | some x => if x = 0 then v else Enclosure.rounded (f · x)

def sin : Float → Float :=
  oddCircular Enclosure.sin

def tan : Float → Float :=
  oddCircular Enclosure.tan

def cos (v : Float) : Float :=
  match value? v with
  | none => nan
  | some x => if x = 0 then 1 else Enclosure.rounded (Enclosure.cos · x)

def exp (v : Float) : Float :=
  match view v, value? v with
  | .infinite negative, _ => if negative then 0 else v
  | _, none => nan
  | _, some x =>
    if x = 0 then 1
    else if exponentialRange < x then infinity false
    else if x < -exponentialRange then 0
    else Enclosure.rounded (Enclosure.exp · (.exact x))

def ln (v : Float) : Float :=
  match view v, value? v with
  | .infinite negative, _ => if negative then nan else v
  | _, none => nan
  | _, some x =>
    if x = 0 then infinity true
    else if x < 0 then nan
    else if x = 1 then 0
    else Enclosure.rounded (Enclosure.ln · x)

/-- The value of `f` at the hyperbolic sine and cosine of a magnitude: `zero` at zero, and `far`
beyond the range of exponentials. -/
def hyperbolic (f : Enclosure × Enclosure → Enclosure) (far zero : Float) (v : Float) : Float :=
  match view v, value? v with
  | .nan, _ => nan
  | _, some x =>
    if x = 0 then zero
    else if x.abs ≤ exponentialRange then
      Enclosure.rounded fun precision => f (Enclosure.sinhCosh precision x.abs)
    else far
  | _, none => far

def sinh (v : Float) : Float :=
  withSign v (hyperbolic (fun (sinh, _) => sinh) (infinity false) 0 v)

def cosh (v : Float) : Float :=
  hyperbolic (fun (_, cosh) => cosh) (infinity false) 1 v

def tanh (v : Float) : Float :=
  withSign v (hyperbolic (fun (sinh, cosh) => sinh / cosh) 1 0 v)

/-! ## Functions of two numbers -/

/-- The power of a positive rational other than one. -/
def powPositive (x y : Rat) : Float :=
  match exactPower? x y with
  | some power => ofRat power
  | none =>
    let estimate := (Enclosure.ln 64 x).scale y
    if exponentialRange < estimate.lower then infinity false
    else if estimate.upper < -exponentialRange then 0
    else Enclosure.rounded fun precision =>
      Enclosure.exp precision ((Enclosure.ln (precision + 16) x).scale y)

/-- The power of the magnitude of `x`, for an `x` and a `y` that are numbers. -/
def powMagnitude (x y : Float) : Float :=
  let grows := decide (0 < y)
  match value? x with
  | none => if grows then infinity false else 0
  | some p =>
    if p.abs = 1 then 1
    else if p = 0 then if grows then 0 else infinity false
    else match value? y with
      | none => if decide (1 < p.abs) = grows then infinity false else 0
      | some q => powPositive p.abs q

/-- The power `x ^ y`. A negative base has a power for whole exponents only, which is negative for
odd ones. -/
def pow (x y : Float) : Float :=
  if y == 0 || x == 1 then 1
  else if x.isNaN || y.isNaN then nan
  else
    let magnitude := powMagnitude x y
    match isNegative x, value? x, value? y with
    | true, base?, some exponent =>
      if exponent.den = 1 then
        if exponent.num % 2 = 0 then magnitude else -magnitude
      else if base?.any (· ≠ 0) then nan
      else magnitude
    | _, _, _ => magnitude

/-- The logarithm of `x` to a base. -/
def log (x base : Float) : Float :=
  ln x / ln base

/-- The smaller of two doubles; one that is not a number gives way to the other. -/
def lesser (x y : Float) : Float :=
  if y.isNaN || x < y then x else y

/-- The larger of two doubles; one that is not a number gives way to the other. -/
def greater (x y : Float) : Float :=
  if y.isNaN || y < x then x else y

/-- The length of the hypotenuse of a right triangle. An infinite side makes it infinite. -/
def hypot (x y : Float) : Float :=
  match value? x, value? y with
  | some p, some q =>
    let square := p * p + q * q
    if square = 0 then 0 else Enclosure.rounded (Enclosure.sqrt · square)
  | _, _ => if x.isInf || y.isInf then infinity false else nan

end Binary64

def Arithmetic.ieee : Arithmetic Float where
  operator
    | .add => (· + ·)
    | .sub => (· - ·)
    | .mul => (· * ·)
    | .div => (· / ·)
  unary
    | .sin => Binary64.sin
    | .cos => Binary64.cos
    | .tan => Binary64.tan
    | .sinh => Binary64.sinh
    | .cosh => Binary64.cosh
    | .tanh => Binary64.tanh
    | .exp => Binary64.exp
    | .ln => Binary64.ln
    | .sqrt => Float.sqrt
    | .abs => Float.abs
    | .floor => Binary64.toWhole Rat.floor
    | .ceil => Binary64.toWhole Rat.ceil
    | .round => Binary64.toWhole Binary64.nearestAway
  binary
    | .pow => Binary64.pow
    | .log => Binary64.log
    | .min => Binary64.lesser
    | .max => Binary64.greater
    | .hypot => Binary64.hypot

end Reckoner
