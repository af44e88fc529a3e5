import ImageFormula.ShaderFunction
import ImageFormula.Proofs.Integers

/-!
# The power operator in the shader

The operator `^` has two definitions: one that folds trees, and the body of a function in the shader
source. They test the exponent of a negative base in different ways. One looks at what is left over
its integer part and takes the sign from a remainder of magnitude one; the other looks at what is
left over the greatest integer below and takes the sign from a remainder that does not vanish. Both
find the integers, and of these the odd ones (`Binary32.fract_equals_zero`,
`Binary32.frac_equals_zero`, `Binary32.parity`), so the two definitions agree at all operands,
whatever power function the platforms share (`ShaderFunction.power_agrees`).
-/

namespace ImageFormula

open Binary32

namespace ShaderFunction

variable (pow : PowerFunction) (base exponent : Binary32)

/-- The value of the body, its names replaced by the operands. -/
theorem value_power : power.value pow base exponent =
    if base.equals zero then
      if exponent.equals zero then nan else if zero.less exponent then zero else infinity
    else if zero.less base then pow base exponent
    else if !exponent.frac.equals zero then nan
    else if (exponent % two).equals zero then pow (-base) exponent
    else -pow (-base) exponent := by
  simp [power, value, Body.value, Condition.holds, Comparison.holds, Term.value]

/-- The tests for an integer agree at all exponents, and those for an odd one at integers. -/
theorem value_power_eq : power.value pow base exponent = powerBy pow base exponent := by
  rw [value_power, powerBy, frac_equals_zero, fract_equals_zero]
  cases integer : exponent.isInteger with
  | false => rfl
  | true =>
      rw [(parity integer).2]
      cases exponent.isOdd <;> rfl

end ShaderFunction

/-- At a negative base only the tests of the exponent are left. -/
theorem Binary32.powerBy_negative {base : Binary32} (negative : base.less zero = true)
    (pow : ShaderFunction.PowerFunction) (exponent : Binary32) : powerBy pow base exponent =
    if exponent.isInteger then
      if exponent.isOdd then -pow (-base) exponent else pow (-base) exponent
    else nan := by
  rw [less_zero, Bool.and_eq_true_iff] at negative
  have below : base.rank < 0 := of_decide_eq_true negative.2
  have notZero : base.equals zero = false := by
    rw [equals_zero_rank, decide_eq_false (by omega), Bool.and_false]
  have notAbove : zero.less base = false := by
    rw [zero_less, decide_eq_false (by omega), Bool.and_false]
  rw [powerBy, notZero, notAbove, fract_equals_zero]
  cases exponent.isInteger <;> rfl

/-- The function in the shader and the operator that folds trees have the same value at all
operands, over any power function. At a negative base and an exponent that is an integer, the power
of the magnitude is negated just if the integer is odd; at any other exponent there is no value. -/
theorem ShaderFunction.power_agrees (pow : PowerFunction) (base exponent : Binary32) :
    power.value pow base exponent = powerBy pow base exponent ∧
    power.value Binary32.pow base exponent = Binary32.power base exponent ∧
    (base.less zero = true →
      (∀ k, exponent.IsInteger k → power.value pow base exponent =
        if Odd k then -pow (-base) exponent else pow (-base) exponent) ∧
      ((∀ k, ¬ exponent.IsInteger k) → power.value pow base exponent = nan)) := by
  refine ⟨value_power_eq pow base exponent, value_power_eq Binary32.pow base exponent, ?_⟩
  intro negative
  rw [value_power_eq, powerBy_negative negative]
  constructor
  · intro k integer
    rw [integer.isInteger, if_pos rfl]
    by_cases odd : Odd k
    · rw [if_pos (integer.isOdd_iff.mpr odd), if_pos odd]
    · rw [if_neg (mt integer.isOdd_iff.mp odd), if_neg odd]
  · intro noInteger
    cases integer : exponent.isInteger with
    | false => rfl
    | true =>
        obtain ⟨k, isInteger⟩ := exists_isInteger integer
        exact absurd isInteger (noInteger k)

/-- The greatest odd number is `2 ^ 24 - 1`; twice as large a number is even, and `1 / 2` is no
integer. -/
theorem ShaderFunction.power_agrees_odd :
    let base : Binary32 := ⟨0xC0000000⟩
    let odd : Binary32 := ⟨0x4B7FFFFF⟩
    let even : Binary32 := ⟨0xCBFFFFFF⟩
    base.less zero = true ∧ odd.IsInteger 16777215 ∧ even.IsInteger (-33554430) ∧
      power.value Binary32.pow base odd = -Binary32.pow two odd ∧
      power.value Binary32.pow base even = Binary32.pow two even ∧
      power.value Binary32.pow base ⟨0x3F000000⟩ = nan := by
  intro base odd even
  have negative : base.less zero = true := by decide
  have isOdd : odd.IsInteger 16777215 := ⟨by decide, by decide +kernel⟩
  have isEven : even.IsInteger (-33554430) := ⟨by decide, by decide +kernel⟩
  have opposite : -base = two := by decide
  obtain ⟨-, -, atOdd⟩ := power_agrees Binary32.pow base odd
  obtain ⟨-, -, atEven⟩ := power_agrees Binary32.pow base even
  obtain ⟨-, -, atHalf⟩ := power_agrees Binary32.pow base ⟨0x3F000000⟩
  refine ⟨negative, isOdd, isEven, ?_, ?_, (atHalf negative).2 ?_⟩
  · rw [(atOdd negative).1 _ isOdd, if_pos (by decide), opposite]
  · rw [(atEven negative).1 _ isEven, if_neg (by decide), opposite]
  · intro k integer
    exact absurd integer.isInteger (by decide +kernel)

end ImageFormula
