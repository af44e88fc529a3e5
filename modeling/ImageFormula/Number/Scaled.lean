import ImageFormula.Number.Rounding

/-! Fixed-point approximations of the elementary functions.

A real is kept as an integer in units of `2 ^ -512`. Every function here reduces its argument to a
small interval and sums a series there by Horner's rule; its error is far below `2 ^ -300`, which
is what `Elementary` needs to round correctly. -/

namespace ImageFormula.Number.Scaled

/-- Bits after the binary point. -/
def precision : Nat := 512

/-- The number 1. -/
def one : Int := twoPow precision

def mul (a b : Int) : Int := a * b / one

def quotient (a b : Int) : Int := a * one / b

/-- Horner's rule: applies the steps `terms - 1`, …, `1`, `0` in this order. -/
def horner (step : Nat → Int → Int) : Nat → Int → Int
  | 0, tail => tail
  | term + 1, tail => horner step term (step term tail)

/-! ## Series -/

/-- The exponential of `-1/2 ≤ r ≤ 1/2`. -/
def expSeries (r : Int) : Int :=
  horner (fun k tail => one + r * tail / (one * (k + 1))) 110 one

/-- The inverse hyperbolic tangent of `-1/3 ≤ z ≤ 1/3`. -/
def atanhSeries (z : Int) : Int :=
  let square := mul z z
  mul z (horner (fun k tail => one / (2 * k + 1) + mul square tail) 170 0)

/-- The arc tangent of `0 ≤ x ≤ 1`, by the series whose terms at least halve. -/
def atanSeries (x : Int) : Int :=
  let square := mul x x
  let ratio := quotient square (one + square)
  mul (quotient x (one + square))
    (horner (fun k tail => one + ratio * tail * (2 * k + 2) / (one * (2 * k + 3))) 540 one)

/-- The sine of `-1 ≤ r ≤ 1`. -/
def sinSeries (r : Int) : Int :=
  let square := mul r r
  mul r (horner (fun k tail => one - square * tail / (one * ((2 * k + 2) * (2 * k + 3)))) 60 one)

/-- The cosine of `-1 ≤ r ≤ 1`. -/
def cosSeries (r : Int) : Int :=
  let square := mul r r
  horner (fun k tail => one - square * tail / (one * ((2 * k + 1) * (2 * k + 2)))) 60 one

/-! ## Constants -/

def pi : Int := 16 * atanSeries (one / 5) - 4 * atanSeries (one / 239)

def halfPi : Int := pi / 2

def ln2 : Int := 2 * atanhSeries (one / 3)

def ln10 : Int := 3 * ln2 + 2 * atanhSeries (one / 9)

/-! ## Functions -/

/-- The integer nearest to `a / b`, for a positive `b`. -/
def nearest (a b : Int) : Int := (2 * a + b) / (2 * b)

/-- The exponential as a factor near 1 and a power of two. -/
def exp (x : Int) : Int × Int :=
  let power := nearest x ln2
  (expSeries (x - power * ln2), power)

/-- The power `2 ^ x` as a factor near 1 and a power of two; exact for whole `x`. -/
def exp2 (x : Int) : Int × Int :=
  let power := nearest x one
  (expSeries (mul (x - power * one) ln2), power)

/-- The logarithm of `value / 2 ^ exponent` as a part below `ln 2` and a whole multiple of `ln 2`;
the first part vanishes for a power of two. -/
def log (value exponent : Nat) : Int × Int :=
  let top := value.log2
  let lead : Int := (value * twoPow (precision - top) : Nat)
  let (lead, power) :=
    if 2 * lead < 3 * one then (lead, (top : Int)) else (lead / 2, (top : Int) + 1)
  (2 * atanhSeries (quotient (lead - one) (lead + one)), power - exponent)

/-- The arc tangent of `num / den`, which may be infinite. -/
def atan (num den : Nat) : Int :=
  if num ≤ den then atanSeries (quotient num den) else halfPi - atanSeries (quotient den num)

/-- The sine of a number: one of the two series on what is left of the nearest multiple of
`π / 2`. -/
def sin (x : Int) : Int :=
  let turns := nearest x halfPi
  let rest := x - turns * halfPi
  match (turns % 4).toNat with
  | 0 => sinSeries rest
  | 1 => cosSeries rest
  | 2 => -sinSeries rest
  | _ => -cosSeries rest

/-- The cosine of a number, as for the sine. -/
def cos (x : Int) : Int :=
  let turns := nearest x halfPi
  let rest := x - turns * halfPi
  match (turns % 4).toNat with
  | 0 => cosSeries rest
  | 1 => -sinSeries rest
  | 2 => -cosSeries rest
  | _ => sinSeries rest

end ImageFormula.Number.Scaled
