import Reckoner.Number.Binary64

/-!
# Enclosures of real numbers

An `Enclosure` is a closed interval with rational ends; it stands for a real number that lies in it,
and every operation gives an enclosure of the result. `coarsen` widens an enclosure to ends of few
significant bits, so that long computations stay cheap and small numbers keep their relative
precision. `Enclosure.rounded` sharpens an enclosure until both of its ends round to one double,
which is then the double nearest to the real number.
-/

namespace Reckoner

structure Enclosure where
  lower : Rat
  upper : Rat

namespace Enclosure

def exact (x : Rat) : Enclosure := ⟨x, x⟩

/-! ## Arithmetic -/

def add (a b : Enclosure) : Enclosure :=
  ⟨a.lower + b.lower, a.upper + b.upper⟩

def neg (a : Enclosure) : Enclosure :=
  ⟨-a.upper, -a.lower⟩

/-- The least enclosure of two numbers. -/
def span (x y : Rat) : Enclosure :=
  if x ≤ y then ⟨x, y⟩ else ⟨y, x⟩

/-- The least enclosure of what either of two encloses. -/
def hull (a b : Enclosure) : Enclosure :=
  ⟨(span a.lower b.lower).lower, (span a.upper b.upper).upper⟩

/-- Encloses the product: its extremes are among the products of the ends. -/
def mul (a b : Enclosure) : Enclosure :=
  hull (span (a.lower * b.lower) (a.lower * b.upper))
    (span (a.upper * b.lower) (a.upper * b.upper))

/-- Encloses the inverse of a number that is not zero; the enclosure must not hold zero. -/
def inv (a : Enclosure) : Enclosure :=
  ⟨a.upper⁻¹, a.lower⁻¹⟩

instance : Add Enclosure := ⟨add⟩
instance : Neg Enclosure := ⟨neg⟩
instance : Sub Enclosure := ⟨fun a b => a + -b⟩
instance : Mul Enclosure := ⟨mul⟩
instance : Div Enclosure := ⟨fun a b => a * b.inv⟩

def scale (c : Rat) (a : Enclosure) : Enclosure :=
  if 0 ≤ c then ⟨c * a.lower, c * a.upper⟩ else ⟨c * a.upper, c * a.lower⟩

/-! ## Precision -/

/-- The largest number of at most `precision` significant bits that is not above `x`. -/
def roundDown (precision : Nat) (x : Rat) : Rat :=
  if x = 0 then 0
  else
    let unit : Rat := 2 ^ (Binary64.floorLog2 x.abs + 1 - precision)
    (x / unit).floor * unit

/-- The least number of at most `precision` significant bits that is not below `x`. -/
def roundUp (precision : Nat) (x : Rat) : Rat :=
  -roundDown precision (-x)

/-- A slightly larger enclosure with ends of at most `precision` significant bits. -/
def coarsen (precision : Nat) (a : Enclosure) : Enclosure :=
  ⟨roundDown precision a.lower, roundUp precision a.upper⟩

/-- The precisions at which an enclosure is tried. None suffices for a number in the middle between
two doubles, but the functions here have such values only where their enclosures are exact. -/
def precisions : List Nat := [80, 160, 320, 640, 1280, 2560, 5120]

/-- The double that both ends round to at the first of the given precisions where they agree. -/
def roundedAt (f : Nat → Enclosure) : List Nat → Float
  | [] => Binary64.nan
  | precision :: finer =>
    let enclosure := f precision
    let below := Binary64.ofRat enclosure.lower
    let above := Binary64.ofRat enclosure.upper
    -- by bits, since the two zeros are equal as numbers
    if below.toBits = above.toBits then below else roundedAt f finer

/-- The double nearest to the real number that `f` encloses ever more sharply. -/
def rounded (f : Nat → Enclosure) : Float :=
  roundedAt f precisions

/-! ## Series -/

/-- Evaluates a series by Horner's rule, from an enclosure of what follows its first `n` terms:
`step k` puts the `k`-th term in front of what follows it. -/
def horner (step : Nat → Enclosure → Enclosure) : Nat → Enclosure → Enclosure
  | 0, tail => tail
  | k + 1, tail => horner step k (step (k + 1) tail)

/-- How many terms of a series are summed for a precision, which suffices if each is at most an
eighth of the one before. -/
def terms (precision : Nat) : Nat := precision / 3 + 8

end Enclosure

end Reckoner
