import Reckoner.Elementary.Exponential

/-!
# Circular functions

An angle is reduced to a number of quarter turns and a rest of at most an eighth of a turn. The
quarter turn is enclosed as sharply as the size of the angle asks for, so the rest of a huge angle
is as precise as that of a small one.
-/

namespace Reckoner.Enclosure

/-- Encloses the quarter turn `π / 2`, as `8 · arctan (1/5) - 2 · arctan (1/239)`. -/
def quarterTurn (precision : Nat) : Enclosure :=
  scale 8 (arcSeries precision (1 / 5) (-1 / 25)) -
    scale 2 (arcSeries precision (1 / 239) (-1 / 57121))

/-- The number of quarter turns nearest to an angle, and an enclosure of the rest of it. -/
def reduceAngle (precision : Nat) (x : Rat) : Int × Enclosure :=
  if x.abs < 3 / 4 then (0, exact x)
  else
    let quarter := quarterTurn (precision + (Binary64.floorLog2 x.abs).toNat + 8)
    let turns := Binary64.nearestEven (x / quarter.lower)
    (turns, (exact x - scale turns quarter).coarsen precision)

/-- Encloses the sine of a number of quarter turns and a rest. -/
def sinReduced (precision : Nat) (turns : Int) (rest : Enclosure) : Enclosure :=
  let square := -(rest * rest).coarsen precision
  match turns % 4 with
  | 0 => oddSeries precision rest square
  | 1 => evenSeries precision square
  | 2 => -oddSeries precision rest square
  | _ => -evenSeries precision square

def sin (precision : Nat) (x : Rat) : Enclosure :=
  let (turns, rest) := reduceAngle precision x
  sinReduced precision turns rest

/-- Encloses the cosine of an angle, the sine of the angle a quarter turn further. -/
def cos (precision : Nat) (x : Rat) : Enclosure :=
  let (turns, rest) := reduceAngle precision x
  sinReduced precision (turns + 1) rest

def tan (precision : Nat) (x : Rat) : Enclosure :=
  let (turns, rest) := reduceAngle precision x
  sinReduced precision turns rest / sinReduced precision (turns + 1) rest

end Reckoner.Enclosure
