/-! Rounding of exact ratios to binary floating point, ties to the even neighbour.

A non-negative floating-point number is kept as a *code*: with `fraction` stored significand
bits, code `c` stands for the integer `codeValue fraction c`, counted in units of the smallest
positive number of the format. Codes are ordered like the numbers they stand for, and every
format of the same `fraction` shares them; only the unit and the code of infinity differ.
`roundRatio` is the code of the number nearest to a ratio of natural numbers. -/

namespace ImageFormula

/-- The power `2 ^ n`. -/
def twoPow (n : Nat) : Nat := Nat.pow 2 n

/-- The power `10 ^ n`. -/
def tenPow (n : Nat) : Nat := Nat.pow 10 n

namespace Number

/-- The integer nearest to `num / den`, and of two nearest the even one. -/
def roundHalfEven (num den : Nat) : Nat :=
  let whole := num / den
  let twice := 2 * (num % den)
  if den < twice then whole + 1
  else if twice < den then whole
  else whole + whole % 2

/-- The code of the floating-point number nearest to `num / den` units. -/
def roundRatio (fraction num den : Nat) : Nat :=
  let shift := (num / den).log2 - fraction
  shift * twoPow fraction + roundHalfEven num (den * twoPow shift)

/-- The number of units that a code stands for. -/
def codeValue (fraction code : Nat) : Nat :=
  if code < twoPow fraction then code
  else (twoPow fraction + code % twoPow fraction) * twoPow (code / twoPow fraction - 1)

/-- The integer part of the square root. -/
def integerSqrt (n : Nat) : Nat :=
  if n < 2 then n
  else
    let doubled := 2 * integerSqrt (n / 4)
    if (doubled + 1) * (doubled + 1) ≤ n then doubled + 1 else doubled
termination_by n
decreasing_by omega

end Number

end ImageFormula
