import ImageFormula.Number.Arithmetic
import ImageFormula.Number.Scaled

/-! The elementary functions on binary32, correctly rounded.

Each function settles its exceptional operands, takes a fixed-point approximation of the exact
result, rounds it to 128 significant bits and then to binary32. An exact result such as
`2 ^ 3` or `log10 1000` survives the first rounding unchanged, so that the error of the
approximation cannot tip it, and no other result of a binary32 operand lies that close to a
boundary between two binary32 numbers. -/

namespace ImageFormula.Binary32

open Number

/-- The number nearest to `num / den`, rounded to 128 significant bits on the way. -/
def ofApproximation (negative : Bool) (num den : Nat) : Binary32 :=
  let wide := codeValue 127 (roundRatio 127 (num * twoPow 1024) den)
  ofRatio negative (wide * twoPow unitExponent) (twoPow 1024)

/-- The number nearest to a fixed-point real. -/
def ofScaled (value : Int) : Binary32 :=
  ofApproximation (decide (value < 0)) value.natAbs Scaled.one.toNat

/-- The number nearest to a positive fixed-point real times a power of two. -/
def ofScaledPower (negative : Bool) (value power : Int) : Binary32 :=
  ofApproximation negative (value.toNat * twoPow power.toNat)
    (Scaled.one.toNat * twoPow (-power).toNat)

/-- A finite number as a fixed-point real; exact. -/
def scaled (x : Binary32) : Int := x.signedUnits * (twoPow (Scaled.precision - unitExponent) : Int)

/-! ## Exponential and logarithm -/

def exp (x : Binary32) : Binary32 :=
  if x.isNaN then nan
  else if x.isInfinite || decide (200 * Scaled.one < x.scaled.natAbs) then
    if x.isNegative then zero else infinity
  else
    let (value, power) := Scaled.exp x.scaled
    ofScaledPower false value power

def exp2 (x : Binary32) : Binary32 :=
  if x.isNaN then nan
  else if x.isInfinite || decide (200 * Scaled.one < x.scaled.natAbs) then
    if x.isNegative then zero else infinity
  else
    let (value, power) := Scaled.exp2 x.scaled
    ofScaledPower false value power

/-- A logarithm, from its value on positive finite numbers. -/
def logarithm (value : Binary32 → Int) (x : Binary32) : Binary32 :=
  if x.isNaN then nan
  else if x.isZero then signedInfinity true
  else if x.isNegative then nan
  else if x.isInfinite then x
  else ofScaled (value x)

/-- The natural logarithm of a positive finite number, as a fixed-point real. -/
def scaledLog (x : Binary32) : Int :=
  let (rest, power) := Scaled.log x.units unitExponent
  rest + power * Scaled.ln2

/-- The binary logarithm of a positive finite number, as a fixed-point real. -/
def scaledLog2 (x : Binary32) : Int :=
  let (rest, power) := Scaled.log x.units unitExponent
  Scaled.quotient rest Scaled.ln2 + power * Scaled.one

def log : Binary32 → Binary32 := logarithm scaledLog

def log2 : Binary32 → Binary32 := logarithm scaledLog2

def log10 : Binary32 → Binary32 :=
  logarithm fun x => Scaled.quotient x.scaledLog Scaled.ln10

/-! ## Trigonometric functions -/

def sin (x : Binary32) : Binary32 :=
  if x.isZero then x
  else if !x.isFinite then nan
  else ofScaled (Scaled.sin x.scaled)

def cos (x : Binary32) : Binary32 :=
  if !x.isFinite then nan else ofScaled (Scaled.cos x.scaled)

def tan (x : Binary32) : Binary32 :=
  if x.isZero then x
  else if !x.isFinite then nan
  else
    let sine := Scaled.sin x.scaled
    let cosine := Scaled.cos x.scaled
    ofApproximation (decide (sine < 0) != decide (cosine < 0)) sine.natAbs cosine.natAbs

/-- The arc sine of a number between -1 and 1, as a fixed-point real. -/
def scaledAsin (x : Binary32) : Int :=
  let sine := x.scaled.natAbs
  let cosine := integerSqrt (Scaled.one.toNat * Scaled.one.toNat - sine * sine)
  if x.isNegative then -Scaled.atan sine cosine else Scaled.atan sine cosine

def asin (x : Binary32) : Binary32 :=
  if x.isZero then x
  else if one.less x.abs || x.isNaN then nan
  else ofScaled x.scaledAsin

def acos (x : Binary32) : Binary32 :=
  if one.less x.abs || x.isNaN then nan else ofScaled (Scaled.halfPi - x.scaledAsin)

def atan (x : Binary32) : Binary32 :=
  if x.isNaN then nan
  else if x.isZero then x
  else if x.isInfinite then ofApproximation x.isNegative Scaled.halfPi.toNat Scaled.one.toNat
  else
    ofApproximation x.isNegative (Scaled.atan x.units (twoPow unitExponent)).toNat Scaled.one.toNat

/-- The angle of a point with magnitudes `y` and `x`, before the quadrant is taken into account. -/
def quadrantAngle (y x : Binary32) : Int :=
  match y.isInfinite, x.isInfinite with
  | true, true => Scaled.halfPi / 2
  | true, false => Scaled.halfPi
  | false, true => 0
  | false, false => if y.isZero then 0 else Scaled.atan y.units x.units

/-- The angle of the point `(x, y)`, with the sign of `y`. -/
def atan2 (y x : Binary32) : Binary32 :=
  if y.isNaN || x.isNaN then nan
  else
    let angle := quadrantAngle y x
    let angle := if x.isNegative then Scaled.pi - angle else angle
    ofApproximation y.isNegative angle.toNat Scaled.one.toNat

/-- Degrees to radians, by one multiplication. -/
def radians (x : Binary32) : Binary32 := x * degree

/-! ## Powers -/

/-- Whether a number is an odd integer, by the remainder of a division by two. -/
def isOdd (x : Binary32) : Bool := (x % two).abs.equals one

/-- The power of a positive finite base to a finite exponent. -/
def positivePow (base exponent : Binary32) : Binary32 :=
  let logarithm := base.scaledLog2 * exponent.signedUnits / (twoPow unitExponent : Int)
  if 300 * Scaled.one < logarithm then infinity
  else if logarithm < -(300 * Scaled.one) then zero
  else
    let (value, power) := Scaled.exp2 logarithm
    ofScaledPower false value power

/-- The power of a base that is not negative: 1 to any exponent and any base to 0 are 1, also
where the other operand is NaN. -/
def magnitudePow (base exponent : Binary32) : Binary32 :=
  if exponent.isZero || base.equals one then one
  else if base.isNaN || exponent.isNaN then nan
  else if exponent.isInfinite then
    if base.less one != exponent.isNegative then zero else infinity
  else if base.isZero || base.isInfinite then
    if base.isZero != exponent.isNegative then zero else infinity
  else positivePow base exponent

/-- The usual power function: a negative base needs an integral exponent, whose parity gives the
sign. -/
def pow (base exponent : Binary32) : Binary32 :=
  if base.isNegative && !base.isNaN then
    if base.isFinite && !base.isZero && exponent.isFinite && !exponent.fract.equals zero then nan
    else
      let magnitude := magnitudePow base.abs exponent
      if exponent.isOdd then -magnitude else magnitude
  else magnitudePow base exponent

/-- The power operator of formulas, made of a power function. It differs from that function at a base
of zero, where `0 ^ 0` is NaN and no negative zero arises, and at a negative base, where infinite
exponents are refused too. -/
def powerBy (pow : Binary32 → Binary32 → Binary32) (base exponent : Binary32) : Binary32 :=
  if base.equals zero then
    if exponent.equals zero then nan
    else if zero.less exponent then zero
    else infinity
  else if zero.less base then pow base exponent
  else if !exponent.fract.equals zero then nan
  else
    let magnitude := pow (-base) exponent
    if exponent.isOdd then -magnitude else magnitude

/-- The power operator of formulas. -/
def power (base exponent : Binary32) : Binary32 := powerBy pow base exponent

end ImageFormula.Binary32
