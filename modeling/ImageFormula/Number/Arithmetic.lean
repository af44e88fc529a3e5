import ImageFormula.Number.Binary32

/-! Arithmetic on binary32 numbers: each result is the exact one, rounded once.

Finite operands are integers in units of `2 ^ -149`, so sums, products, quotients, remainders and
roundings to an integer are exact computations on integers before the single rounding. -/

namespace ImageFormula.Binary32

/-- The number with the opposite sign bit. -/
def negate (x : Binary32) : Binary32 := ⟨x.bits ^^^ 0x80000000⟩

/-- The number with the sign bit cleared. -/
def abs (x : Binary32) : Binary32 := ⟨x.bits &&& 0x7FFFFFFF⟩

/-- A sum that vanishes is negative zero only if both operands are. -/
def add (x y : Binary32) : Binary32 :=
  if x.isNaN || y.isNaN then nan
  else if x.isInfinite then
    if y.isInfinite && x.isNegative != y.isNegative then nan else x
  else if y.isInfinite then y
  else
    let sum := x.signedUnits + y.signedUnits
    ofRatio (decide (sum < 0) || sum == 0 && x.isNegative && y.isNegative) sum.natAbs 1

def sub (x y : Binary32) : Binary32 := add x y.negate

def mul (x y : Binary32) : Binary32 :=
  let negative := x.isNegative != y.isNegative
  if x.isNaN || y.isNaN then nan
  else if x.isInfinite || y.isInfinite then
    if x.isZero || y.isZero then nan else signedInfinity negative
  else ofRatio negative (x.units * y.units) (twoPow unitExponent)

def div (x y : Binary32) : Binary32 :=
  let negative := x.isNegative != y.isNegative
  if x.isNaN || y.isNaN then nan
  else if x.isInfinite then
    if y.isInfinite then nan else signedInfinity negative
  else if y.isInfinite then signedZero negative
  else if y.isZero then
    if x.isZero then nan else signedInfinity negative
  else ofRatio negative (x.units * twoPow unitExponent) y.units

/-- The remainder of the division truncated toward zero; it has the sign of the dividend. -/
def remainder (x y : Binary32) : Binary32 :=
  if x.isNaN || y.isNaN || x.isInfinite || y.isZero then nan
  else if y.isInfinite then x
  else ofRatio x.isNegative (x.units % y.units) 1

instance : Neg Binary32 := ⟨negate⟩
instance : Add Binary32 := ⟨add⟩
instance : Sub Binary32 := ⟨sub⟩
instance : Mul Binary32 := ⟨mul⟩
instance : Div Binary32 := ⟨div⟩
instance : Mod Binary32 := ⟨remainder⟩

/-! ## Integers near a number -/

/-- Whole magnitudes of a finite number: the number of ones in it, and whether something is left. -/
def wholePart (x : Binary32) : Nat × Bool :=
  (x.units / twoPow unitExponent, decide (x.units % twoPow unitExponent ≠ 0))

/-- The number with a whole magnitude, and the given sign. -/
def ofWhole (negative : Bool) (whole : Nat) : Binary32 :=
  ofRatio negative (whole * twoPow unitExponent) 1

/-- The integer part, toward zero. -/
def trunc (x : Binary32) : Binary32 :=
  if x.isFinite then ofWhole x.isNegative x.wholePart.1 else x

/-- The greatest integer that is not above the number. -/
def floor (x : Binary32) : Binary32 :=
  if x.isFinite then
    let (whole, inexact) := x.wholePart
    ofWhole x.isNegative (whole + if x.isNegative && inexact then 1 else 0)
  else x

/-- The least integer that is not below the number. -/
def ceil (x : Binary32) : Binary32 :=
  if x.isFinite then
    let (whole, inexact) := x.wholePart
    ofWhole x.isNegative (whole + if !x.isNegative && inexact then 1 else 0)
  else x

/-- What is left over the greatest integer below. -/
def frac (x : Binary32) : Binary32 := x - x.floor

/-- What is left over the integer part. -/
def fract (x : Binary32) : Binary32 := x - x.trunc

/-- Minus one, zero or one, as the number is below, at or above zero; zero for NaN. -/
def sign (x : Binary32) : Binary32 :=
  if zero.less x then one else if x.less zero then minusOne else zero

/-- The square root; a root beside the grid keeps one bit that says so, and rounds once. -/
def sqrt (x : Binary32) : Binary32 :=
  if x.isNaN || x.isZero then x
  else if x.isNegative then nan
  else if x.isInfinite then x
  else
    let square := x.units * twoPow unitExponent
    let root := Number.integerSqrt square
    ofRatio false (2 * root + if root * root = square then 0 else 1) 2

end ImageFormula.Binary32
