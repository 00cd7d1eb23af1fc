import Reckoner.Number.Shortest

/-!
# Writing doubles

A double is written with the fewest digits that read back to it. The two layouts differ in what they
do around those digits: `Layout.plain` is always positional and writes a whole number without a
point; `Layout.tagged` keeps `.0` on a whole number and turns to a power of ten for magnitudes below
`0.0001` and from `10 ^ 16` on.
-/

namespace Reckoner

/-- How digits are set out. A number is `0.d₁d₂… · 10 ^ point` for the digits `d₁d₂…`. -/
structure Layout where
  /-- Whether a whole number is written with `.0`. -/
  pointed : Bool
  /-- Whether a number with its point there is written without a power of ten. -/
  positional : Int → Bool

namespace Layout

/-- Positional, and whole numbers without a point. -/
def plain : Layout := ⟨false, fun _ => true⟩

/-- Positional between `0.0001` and `10 ^ 16`, and whole numbers with `.0`. -/
def tagged : Layout := ⟨true, fun point => decide (-3 ≤ point ∧ point ≤ 16)⟩

def stripZeros (digits : List Char) : List Char :=
  (digits.reverse.dropWhile (· = '0')).reverse

/-- The text of `0.d₁d₂… · 10 ^ point` with the point in its place. -/
def positionalText (layout : Layout) (digits : List Char) (point : Int) : List Char :=
  -- the point stands in front of the digits, behind them, or among them
  if point ≤ 0 then '0' :: '.' :: List.replicate (-point).toNat '0' ++ digits
  else if digits.length ≤ point then
    digits ++ List.replicate (point.toNat - digits.length) '0' ++
      if layout.pointed then ['.', '0'] else []
  else digits.take point.toNat ++ '.' :: digits.drop point.toNat

/-- The text of `0.d₁d₂… · 10 ^ point` with one digit before the point and a power of ten. -/
def scientificText (digits : List Char) (point : Int) : List Char :=
  digits.take 1 ++ (if digits.length ≤ 1 then [] else '.' :: digits.drop 1) ++
    'e' :: (toString (point - 1)).toList

/-- The text of a positive number with the given digits, the last of them not zero. -/
def digitsText (layout : Layout) (digits : List Char) (point : Int) : List Char :=
  if layout.positional point then layout.positionalText digits point
  else scientificText digits point

def decimalText (layout : Layout) (d : Decimal) : List Char :=
  layout.digitsText (stripZeros d.digits) (d.digits.length + d.exponent)

/-- The text of the magnitude `mantissa · 2 ^ exponent`. -/
def magnitudeText (layout : Layout) (mantissa : Nat) (exponent : Int) : List Char :=
  if mantissa = 0 then '0' :: if layout.pointed then ['.', '0'] else []
  else layout.decimalText (Binary64.shortest mantissa exponent)

def signText (negative : Bool) : List Char :=
  if negative then ['-'] else []

def chars (layout : Layout) (v : Float) : List Char :=
  match Binary64.view v with
  | .nan => "NaN".toList
  | .infinite negative => signText negative ++ "inf".toList
  | .finite negative mantissa exponent =>
    signText negative ++ layout.magnitudeText mantissa exponent

def write (layout : Layout) (v : Float) : String :=
  String.ofList (layout.chars v)

end Layout

end Reckoner
