import Reckoner.Number.Binary64

/-!
# Reading numerals

A numeral is an optional sign followed by decimal digits, which may hold one point, and an optional
power of ten, or by one of the words `inf`, `infinity` and `nan` in any case. `Numeral.parse?` reads
the whole text or nothing; `Numeral.toFloat` is the double nearest to what was written.
-/

namespace Reckoner

inductive Numeral where
  | nan
  | infinity (negative : Bool)
  | decimal (negative : Bool) (significand : Nat) (exponent : Int)
deriving DecidableEq

namespace Numeral

def toFloat : Numeral → Float
  | .nan => Binary64.nan
  | .infinity negative => Binary64.infinity negative
  | .decimal negative significand exponent =>
    Binary64.ofMagnitude negative (significand * 10 ^ exponent)

/-- The digits that a text starts with, and what follows them. -/
def splitDigits (text : List Char) : List Char × List Char :=
  (text.takeWhile Char.isDigit, text.dropWhile Char.isDigit)

/-- The bound at which the digits of a power of ten stop counting. -/
def exponentLimit : Nat := 65536

/-- The number that the digits of a power of ten spell. A digit counts only while the number is
below `exponentLimit`, which is far beyond the range of doubles. -/
def exponentOfDigits (digits : List Char) : Nat :=
  digits.foldl (fun n d => if n < exponentLimit then 10 * n + (d.toNat - '0'.toNat) else n) 0

/-- Reads digits to the end of the text, at least one. -/
def exponentDigits? (text : List Char) : Option Nat :=
  if text.isEmpty || !text.all Char.isDigit then none else some (exponentOfDigits text)

/-- Reads the power of ten behind the digits: nothing, or `e` or `E`, a sign or none, and digits. -/
def exponent? : List Char → Option Int
  | [] => some 0
  | mark :: rest =>
    if mark = 'e' ∨ mark = 'E' then
      match rest with
      | '+' :: digits => (exponentDigits? digits).map Int.ofNat
      | '-' :: digits => (exponentDigits? digits).map (fun n => -Int.ofNat n)
      | digits => (exponentDigits? digits).map Int.ofNat
    else none

/-- The digits behind a point that starts the text, and what follows them. -/
def splitFraction : List Char → List Char × List Char
  | '.' :: rest => splitDigits rest
  | text => ([], text)

/-- Reads digits with a point in, before or behind them, and a power of ten. -/
def decimal? (negative : Bool) (text : List Char) : Option Numeral :=
  let (whole, rest) := splitDigits text
  let (fraction, rest) := splitFraction rest
  if whole.isEmpty && fraction.isEmpty then none
  else (exponent? rest).map fun exponent =>
    .decimal negative (Nat.ofDigitChars 10 (whole ++ fraction) 0) (exponent - fraction.length)

def unsigned? (negative : Bool) (text : List Char) : Option Numeral :=
  let lower := text.map Char.toLower
  if lower = "inf".toList ∨ lower = "infinity".toList then some (.infinity negative)
  else if lower = "nan".toList then some .nan
  else decimal? negative text

def parse? : List Char → Option Numeral
  | '+' :: rest => unsigned? false rest
  | '-' :: rest => unsigned? true rest
  | text => unsigned? false text

end Numeral

/-- The double nearest to the numeral that `text` is, if it is one. -/
def readFloat? (text : List Char) : Option Float :=
  (Numeral.parse? text).map Numeral.toFloat

end Reckoner
