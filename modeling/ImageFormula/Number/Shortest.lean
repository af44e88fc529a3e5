import ImageFormula.Number.Decimal

/-! The shortest decimal that reads back as a given binary32 number.

The reals that round to a number form an interval around it, with its ends if and only if the
code of the number is even. `shortest` takes the coarsest grid of multiples of a power of ten
with a point in that interval, and of this grid the point nearest to the number. A number halfway
between two points takes the greater one or the even one, as `Tie` says. Everything is counted in
quarters of a unit, scaled by `10 ^ 45`, so that all of it is integer arithmetic. -/

namespace ImageFormula

/-- Which of two shortest decimals a number halfway between them takes. -/
inductive Tie where
  | greater
  | even
  deriving DecidableEq, Repr

namespace Binary32

/-- The reals that round to a number: the number itself, the two ends, and whether they belong to
it, in quarters of a unit. -/
structure Interval where
  value : Nat
  low : Nat
  high : Nat
  closed : Bool

/-- Whether the interval holds `point`. -/
def Interval.holds (interval : Interval) (point : Nat) : Bool :=
  if interval.closed then interval.low ≤ point && point ≤ interval.high
  else interval.low < point && point < interval.high

/-- The interval of a finite number that is not zero. Below a power of two the numbers lie twice
as close, except where the spacing has reached one unit. -/
def interval (x : Binary32) : Interval :=
  let gap := twoPow (x.code / twoPow fractionBits - 1)
  let narrow := decide (x.code % twoPow fractionBits = 0) &&
    decide (twoPow (fractionBits + 1) ≤ x.code)
  { value := 4 * x.units
    low := 4 * x.units - (if narrow then gap else 2 * gap)
    high := 4 * x.units + 2 * gap
    closed := decide (x.code % 2 = 0) }

/-- The least power of ten that is tried: the numbers lie further apart than `10 ^ -45`. -/
def leastPower : Nat := 45

/-- The interval in quarters of a unit times `10 ^ -45`. -/
def Interval.scale (i : Interval) : Interval :=
  { i with
    value := i.value * tenPow leastPower
    low := i.low * tenPow leastPower
    high := i.high * tenPow leastPower }

/-- The multiple of `step` nearest to the value of the interval, as its factor. -/
def Interval.nearest (i : Interval) (tie : Tie) (step : Nat) : Nat :=
  let below := i.value / step
  let downward := i.value - below * step
  let upward := (below + 1) * step - i.value
  if downward < upward then below
  else if downward == upward && tie == .even && below % 2 == 0 then below
  else below + 1

/-- The multiple of `step` in the interval that is nearest to its value, as its factor. -/
def Interval.multiple? (i : Interval) (tie : Tie) (step : Nat) : Option Nat :=
  let below := i.value / step
  match i.holds (below * step), i.holds ((below + 1) * step) with
  | true, true => some (i.nearest tie step)
  | true, false => some below
  | false, true => some (below + 1)
  | false, false => none

/-- The coarsest grid `10 ^ (power - 45)` with a point in a scaled interval, and that point. -/
def Interval.coarsest (i : Interval) (tie : Tie) : Nat → Decimal
  | 0 => ⟨(i.multiple? tie (twoPow (unitExponent + 2))).getD 0, -leastPower⟩
  | power + 1 =>
    match i.multiple? tie (tenPow (power + 1) * twoPow (unitExponent + 2)) with
    | some factor => ⟨factor, ((power + 1 : Nat) : Int) - leastPower⟩
    | none => i.coarsest tie power

/-- The shortest decimal that reads back as the magnitude of a finite number. -/
def shortest (x : Binary32) (tie : Tie) : Decimal :=
  if x.isZero then ⟨0, 0⟩ else x.interval.scale.coarsest tie (leastPower + 38)

end Binary32

end ImageFormula
