import Mathlib.Algebra.Order.Ring.Abs
import Mathlib.Tactic.Linarith
import Mathlib.Tactic.Ring
import ImageFormula.Proofs.Shortest

/-!
# Decimals close to a midpoint

The midpoint of two neighbouring binary32 numbers is a multiple of half their spacing. Only one
decimal of few digits is so close to a midpoint, without being one, that binary64 does not tell the
two apart (`Binary32.close_midpoint`).

Whether multiples `c * step` and `m * unit` come close is a question about `step / unit`. With a
fraction `p / q`,

    unit * (p * c - q * m) = q * (c * step - m * unit) - c * (q * step - p * unit),

and where the right side is less than `unit`, both sides are zero, so that `c` and `m` are in the
ratio of `q` and `p`. The convergents of `step / unit` make it small enough.
-/

namespace ImageFormula

namespace Number

/-- Two numbers differ by at most `2 ^ -29` of a unit. -/
structure Close (unit a b : Nat) : Prop where
  le : twoPow 29 * a ≤ twoPow 29 * b + unit
  ge : twoPow 29 * b ≤ twoPow 29 * a + unit

/-- The numerator that makes the fraction of a denominator nearest to `step / unit`. -/
def numerator (step unit q : Nat) : Nat := (2 * (q * step) + unit) / (2 * unit)

/-- The difference between `q * step` and the nearest multiple of the unit. -/
def residue (step unit q : Nat) : Nat :=
  (((q * step : Nat) : ℤ) - (numerator step unit q * unit : Nat)).natAbs

/-- Whether the fraction of a denominator decides which multiples below `2 ^ 25` units come
close. -/
def separates (step unit q : Nat) : Bool :=
  decide (q * step + twoPow 54 * residue step unit q < twoPow 29 * step)

section Integers

variable {step unit q p c m t u : ℤ}

/-- Factors of multiples that come close are in the ratio of a fraction that is near enough. -/
theorem cross_eq (hstep : 0 < step) (hunit : 0 < unit) (ht : 0 < t) (hq : 0 ≤ q) (hc : 0 ≤ c)
    (near : q * step + t * u * |q * step - p * unit| < t * step) (inside : c * step ≤ u * unit)
    (close : t * |c * step - m * unit| ≤ unit) : p * c = q * m := by
  have identity : unit * (p * c - q * m) =
      q * (c * step - m * unit) - c * (q * step - p * unit) := by ring
  have triangle : unit * |p * c - q * m| ≤
      q * |c * step - m * unit| + c * |q * step - p * unit| := by
    calc unit * |p * c - q * m|
      _ = |q * (c * step - m * unit) - c * (q * step - p * unit)| := by
          rw [← identity, abs_mul, abs_of_pos hunit]
      _ ≤ |q * (c * step - m * unit)| + |c * (q * step - p * unit)| := abs_sub _ _
      _ = q * |c * step - m * unit| + c * |q * step - p * unit| := by
          rw [abs_mul, abs_mul, abs_of_nonneg hq, abs_of_nonneg hc]
  have nonneg : 0 ≤ |q * step - p * unit| := abs_nonneg _
  generalize |c * step - m * unit| = distance at *
  generalize |q * step - p * unit| = rest at *
  have less : t * step * unit * |p * c - q * m| < t * step * unit * 1 := by
    calc t * step * unit * |p * c - q * m|
      _ = t * step * (unit * |p * c - q * m|) := by ring
      _ ≤ t * step * (q * distance + c * rest) :=
          mul_le_mul_of_nonneg_left triangle (by positivity)
      _ = q * step * (t * distance) + t * rest * (c * step) := by ring
      _ ≤ q * step * unit + t * rest * (u * unit) :=
          add_le_add (mul_le_mul_of_nonneg_left close (by positivity))
            (mul_le_mul_of_nonneg_left inside (by positivity))
      _ = (q * step + t * u * rest) * unit := by ring
      _ < t * step * unit := mul_lt_mul_of_pos_right near hunit
      _ = t * step * unit * 1 := by ring
  have zero : |p * c - q * m| < 1 := lt_of_mul_lt_mul_left less (by positivity)
  have := Int.abs_lt_one_iff.mp zero
  omega

end Integers

variable {step unit q c m : Nat}

theorem cross_of_close (hstep : 0 < step) (hunit : 0 < unit)
    (separated : separates step unit q = true) (inside : c * step < twoPow 25 * unit)
    (close : Close unit (c * step) (m * unit)) : numerator step unit q * c = q * m := by
  have near := of_decide_eq_true separated
  have positive := twoPow_pos 29
  obtain ⟨le, ge⟩ := close
  unfold residue at near
  rw [show twoPow 54 = twoPow 29 * twoPow 25 from rfl] at near
  zify at *
  have distance : (twoPow 29 : ℤ) * |(c : ℤ) * step - m * unit| ≤ unit := by
    rw [← abs_of_pos positive, ← abs_mul, abs_le]
    constructor <;> linarith
  exact cross_eq hstep hunit positive (Int.natCast_nonneg q) (Int.natCast_nonneg c) near
    (le_of_lt inside) distance

/-- Whether the fraction of a denominator shows that no multiples below `2 ^ 25` units come close
unless they are equal. -/
def settles (step unit q : Nat) : Bool :=
  separates step unit q &&
    (decide (0 < q) && residue step unit q == 0 ||
      (numerator step unit q).gcd q == 1 && decide (twoPow 25 * unit ≤ q * step))

theorem eq_of_settles (hstep : 0 < step) (hunit : 0 < unit) (settled : settles step unit q = true)
    (positive : 0 < m) (inside : c * step < twoPow 25 * unit)
    (close : Close unit (c * step) (m * unit)) : c * step = m * unit := by
  unfold settles at settled
  simp only [Bool.and_eq_true, Bool.or_eq_true, decide_eq_true_eq, beq_iff_eq] at settled
  obtain ⟨separated, exact | ⟨coprime, large⟩⟩ := settled
  · obtain ⟨pos, zero⟩ := exact
    have cross := cross_of_close hstep hunit separated inside close
    have same : q * step = numerator step unit q * unit := by
      unfold residue at zero
      omega
    refine Nat.eq_of_mul_eq_mul_left pos ?_
    calc q * (c * step)
      _ = c * (q * step) := by ring
      _ = numerator step unit q * c * unit := by rw [same]; ring
      _ = q * (m * unit) := by rw [cross]; ring
  · have cross := cross_of_close hstep hunit separated inside close
    -- the denominator divides a factor that is too small for it
    have less : c < q := Nat.lt_of_mul_lt_mul_right (Nat.lt_of_lt_of_le inside large)
    have divides : q ∣ c := by
      refine Nat.Coprime.dvd_of_dvd_mul_left (Nat.coprime_comm.mp coprime) ?_
      exact ⟨m, cross⟩
    obtain rfl : c = 0 := Nat.eq_zero_of_dvd_of_lt divides less
    have product := Nat.mul_pos (show 0 < q by omega) positive
    rw [Nat.mul_zero] at cross
    omega

/-- Looks for a denominator that settles the question, among those of the convergents. The ratio of
`u` and `v` is what is left to expand, `q` and `q'` are the last two denominators. -/
def isSettled (step unit : Nat) : Nat → Nat → Nat → Nat → Nat → Bool
  | 0, _, _, _, _ => false
  | fuel + 1, u, v, q', q =>
    settles step unit q ||
      decide (0 < v) && isSettled step unit fuel v (u % v) q (u / v * q + q')

theorem exists_settles {fuel u v q' q : Nat} (settled : isSettled step unit fuel u v q' q = true) :
    ∃ q, settles step unit q = true := by
  induction fuel generalizing u v q' q with
  | zero => contradiction
  | succ fuel ih =>
      rw [isSettled, Bool.or_eq_true, Bool.and_eq_true] at settled
      rcases settled with found | ⟨-, later⟩
      · exact ⟨q, found⟩
      · exact ih later

end Number

/-! ## All spacings -/

namespace Binary32

open Number

/-- Half a spacing of binary32 numbers, scaled like the intervals. -/
def halfSpacing (spacing : Nat) : Nat := twoPow (spacing + 1) * tenPow leastPower

theorem halfSpacing_pos (spacing : Nat) : 0 < halfSpacing spacing :=
  Nat.mul_pos (twoPow_pos _) (tenPow_pos _)

/-- The steps of a grid are at least as wide as a spacing, up to what `Close` neglects. -/
def IsCoarse (spacing power : Nat) : Prop :=
  2 * halfSpacing spacing * (twoPow 29 - 1) ≤ gridStep power * twoPow 29

/-- The least power whose grid is coarse; the factor is the logarithm of two. -/
def leastCoarse (spacing : Nat) : Nat := (30103 * spacing + 114652) / 100000

/-- The spacings of finite numbers. -/
def spacings : List Nat := List.range 254

theorem gridStep_add (power more : Nat) :
    gridStep (power + more) = tenPow more * gridStep power := by
  unfold gridStep
  rw [tenPow_add]
  ring

theorem leastCoarse_le {spacing power : Nat} (member : spacing ∈ spacings)
    (coarse : IsCoarse spacing power) : leastCoarse spacing ≤ power := by
  have finer : ∀ spacing ∈ spacings, leastCoarse spacing = 0 ∨
      gridStep (leastCoarse spacing - 1) * twoPow 29 <
        2 * halfSpacing spacing * (twoPow 29 - 1) := by decide +kernel
  rcases finer spacing member with least | fine
  · omega
  · by_contra less
    obtain ⟨more, isLess⟩ := Nat.exists_eq_add_of_le (show power ≤ leastCoarse spacing - 1 by omega)
    rw [isLess, gridStep_add] at fine
    have := Nat.le_mul_of_pos_left (gridStep power) (tenPow_pos more)
    have := Nat.mul_le_mul_right (twoPow 29) this
    unfold IsCoarse at coarse
    omega

/-- The only spacing at which a decimal comes close to a midpoint. -/
def closeSpacing : Nat := 42

/-- Whether no decimal with a coarse grid comes close to a midpoint without being one. -/
def isClear (spacing : Nat) : Bool :=
  isSettled (gridStep (leastCoarse spacing)) (halfSpacing spacing) 60 (halfSpacing spacing)
    (gridStep (leastCoarse spacing) % halfSpacing spacing) 0 1

theorem isClear_of_ne {spacing : Nat} (member : spacing ∈ spacings)
    (ne : spacing ≠ closeSpacing) : isClear spacing = true := by
  have clear : ∀ spacing ∈ spacings, spacing = closeSpacing ∨ isClear spacing = true := by
    decide +kernel
  exact (clear spacing member).resolve_left ne

/-- At this spacing, `7038531 * 10 ^ -32` and the midpoint after the significand `11420669` come
close, and no others. -/
theorem midpoint_of_closeSpacing {c m : Nat} (positive : 0 < m)
    (inside : c * gridStep (leastCoarse closeSpacing) < twoPow 25 * halfSpacing closeSpacing)
    (close : Close (halfSpacing closeSpacing) (c * gridStep (leastCoarse closeSpacing))
      (m * halfSpacing closeSpacing)) : m = 22841339 := by
  have separated : separates (gridStep (leastCoarse closeSpacing)) (halfSpacing closeSpacing)
      7038531 = true := by decide +kernel
  have isNumerator : numerator (gridStep (leastCoarse closeSpacing)) (halfSpacing closeSpacing)
      7038531 = 22841339 := by decide +kernel
  have large : twoPow 25 * halfSpacing closeSpacing ≤
      2 * 7038531 * gridStep (leastCoarse closeSpacing) := by decide +kernel
  have cross := cross_of_close (gridStep_pos _) (halfSpacing_pos _) separated inside close
  have less : c < 2 * 7038531 := Nat.lt_of_mul_lt_mul_right (Nat.lt_of_lt_of_le inside large)
  rw [isNumerator] at cross
  have coprime : Nat.Coprime 7038531 22841339 := by decide +kernel
  obtain ⟨factor, rfl⟩ := coprime.dvd_of_dvd_mul_left ⟨m, cross⟩
  have isMultiple : m = 22841339 * factor := by
    rw [Nat.mul_left_comm] at cross
    exact (Nat.eq_of_mul_eq_mul_left (by decide) cross).symm
  obtain rfl : factor = 1 := by
    have : factor < 2 := by
      rw [Nat.mul_comm 2] at less
      exact Nat.lt_of_mul_lt_mul_left less
    have : factor ≠ 0 := by
      rintro rfl
      exact Nat.ne_of_gt positive isMultiple
    omega
  exact isMultiple

/-- A decimal on a coarse grid that is close to a midpoint is the midpoint itself, except for
one. -/
theorem close_midpoint {spacing power factor m : Nat} (member : spacing ∈ spacings)
    (coarse : IsCoarse spacing power) (positive : 0 < m)
    (inside : factor * gridStep power < twoPow 25 * halfSpacing spacing)
    (close : Close (halfSpacing spacing) (factor * gridStep power) (m * halfSpacing spacing))
    (ne : factor * gridStep power ≠ m * halfSpacing spacing) :
    spacing = closeSpacing ∧ m = 22841339 := by
  -- on the least coarse grid the decimal has a greater factor
  obtain ⟨more, rfl⟩ := Nat.exists_eq_add_of_le (leastCoarse_le member coarse)
  rw [gridStep_add, ← Nat.mul_assoc] at inside close ne
  by_cases isClose : spacing = closeSpacing
  · subst isClose
    exact ⟨rfl, midpoint_of_closeSpacing positive inside close⟩
  · obtain ⟨q, settled⟩ := exists_settles (isClear_of_ne member isClose)
    exact absurd (eq_of_settles (gridStep_pos _) (halfSpacing_pos _) settled positive inside close)
      ne

end Binary32

end ImageFormula
