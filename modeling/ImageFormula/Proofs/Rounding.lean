import Mathlib.Tactic.Linarith
import Mathlib.Tactic.Ring
import ImageFormula.Number.Shortest

/-!
# Rounding to the nearest code

`Number.roundRatio` finds the code of a ratio from the logarithm of its integer part.

* `Number.exists_rounding`: what it finds is a significand and a power of two, at most half a
  spacing away from the ratio;
* `Number.Rounding.le_value`, `Number.Rounding.value_le`: it does not pass a multiple of its own
  spacing;
* `Binary32.roundRatio_of_encloses`: every ratio in the interval of a binary32 number is rounded to
  the code of that number.
-/

namespace ImageFormula

theorem twoPow_pos (n : Nat) : 0 < twoPow n := Nat.pow_pos (by decide)

theorem twoPow_add (m n : Nat) : twoPow (m + n) = twoPow m * twoPow n := Nat.pow_add 2 m n

theorem twoPow_succ (n : Nat) : twoPow (n + 1) = 2 * twoPow n := Nat.pow_succ'

theorem twoPow_lt_iff {m n : Nat} : twoPow m < twoPow n ↔ m < n :=
  Nat.pow_lt_pow_iff_right (by decide)

theorem twoPow_le_iff {m n : Nat} : twoPow m ≤ twoPow n ↔ m ≤ n :=
  Nat.pow_le_pow_iff_right (by decide)

theorem twoPow_dvd {m n : Nat} (le : m ≤ n) : twoPow m ∣ twoPow n := Nat.pow_dvd_pow 2 le

theorem tenPow_pos (n : Nat) : 0 < tenPow n := Nat.pow_pos (by decide)

theorem tenPow_add (m n : Nat) : tenPow (m + n) = tenPow m * tenPow n := Nat.pow_add 10 m n

namespace Number

variable {num den : Nat}

/-! ## Nearest integers -/

/-- The nearest integer is at most one half away. -/
theorem roundHalfEven_near (num : Nat) (pos : 0 < den) :
    2 * num ≤ 2 * (roundHalfEven num den * den) + den ∧
      2 * (roundHalfEven num den * den) ≤ 2 * num + den := by
  have split : num / den * den + num % den = num := Nat.div_add_mod' num den
  have rest : num % den < den := Nat.mod_lt num pos
  have next : (num / den + 1) * den = num / den * den + den := Nat.succ_mul _ _
  unfold roundHalfEven
  simp only
  split_ifs
  · rw [next]
    omega
  · omega
  · rcases Nat.mod_two_eq_zero_or_one (num / den) with even | odd
    · rw [even, Nat.add_zero]
      omega
    · rw [odd, next]
      omega

/-- An integer within one half is the nearest one, unless it is odd and exactly one half away. -/
theorem roundHalfEven_eq {nearest : Nat} (pos : 0 < den)
    (below : 2 * num ≤ 2 * (nearest * den) + den) (above : 2 * (nearest * den) ≤ 2 * num + den)
    (tie : 2 * num = 2 * (nearest * den) + den ∨ 2 * (nearest * den) = 2 * num + den →
      nearest % 2 = 0) : roundHalfEven num den = nearest := by
  have split : num / den * den + num % den = num := Nat.div_add_mod' num den
  have rest : num % den < den := Nat.mod_lt num pos
  have next : (num / den + 1) * den = num / den * den + den := Nat.succ_mul _ _
  have lower : num / den ≤ nearest := by
    by_contra less
    have := Nat.mul_le_mul_right den (show nearest + 1 ≤ num / den by omega)
    rw [Nat.succ_mul] at this
    omega
  have upper : nearest ≤ num / den + 1 := by
    by_contra more
    have := Nat.mul_le_mul_right den (show num / den + 1 + 1 ≤ nearest by omega)
    rw [Nat.succ_mul] at this
    omega
  unfold roundHalfEven
  simp only
  obtain same | same : nearest = num / den ∨ nearest = num / den + 1 := by omega
  · rw [same] at below above tie ⊢
    split_ifs <;> omega
  · rw [same, next] at below above tie
    rw [same]
    split_ifs <;> omega

theorem roundHalfEven_scale {factor : Nat} (pos : 0 < factor) :
    roundHalfEven (num * factor) (den * factor) = roundHalfEven num den := by
  have scaled : 2 * (num % den * factor) = 2 * (num % den) * factor := by ring
  unfold roundHalfEven
  simp only [Nat.mul_div_mul_right _ _ pos, Nat.mul_mod_mul_right, scaled,
    Nat.mul_lt_mul_right pos]

/-! ## Codes -/

theorem roundRatio_scale {fraction factor : Nat} (pos : 0 < factor) :
    roundRatio fraction (num * factor) (den * factor) = roundRatio fraction num den := by
  unfold roundRatio
  simp only [Nat.mul_div_mul_right _ _ pos, Nat.mul_right_comm den factor,
    roundHalfEven_scale pos]

/-- The code of a ratio between two powers of two; below the first of them there is one spacing. -/
theorem roundRatio_eq {fraction shift significand : Nat} (pos : 0 < den)
    (least : shift = 0 ∨ twoPow (fraction + shift) * den ≤ num)
    (most : num < twoPow (fraction + shift + 1) * den)
    (nearest : roundHalfEven num (den * twoPow shift) = significand) :
    roundRatio fraction num den = shift * twoPow fraction + significand := by
  have whole : num / den < twoPow (fraction + shift + 1) := (Nat.div_lt_iff_lt_mul pos).mpr most
  have log : (num / den).log2 - fraction = shift := by
    rcases Nat.eq_zero_or_pos (num / den) with zero | positive
    · rw [zero] at whole ⊢
      rcases least with rfl | large
      · simp
      · have := (Nat.le_div_iff_mul_le pos).mpr large
        have := twoPow_pos (fraction + shift)
        omega
    · have upper : (num / den).log2 < fraction + shift + 1 :=
        (Nat.log2_lt (Nat.ne_of_gt positive)).mpr whole
      rcases least with rfl | large
      · omega
      · have lower : fraction + shift ≤ (num / den).log2 :=
          (Nat.le_log2 (Nat.ne_of_gt positive)).mpr ((Nat.le_div_iff_mul_le pos).mpr large)
        omega
  rw [roundRatio, log, nearest]

/-- Equal ratios have the same code. -/
theorem roundRatio_congr {fraction num' den' : Nat} (pos : 0 < den) (pos' : 0 < den')
    (same : num * den' = num' * den) :
    roundRatio fraction num den = roundRatio fraction num' den' := by
  rw [← roundRatio_scale pos', same, Nat.mul_comm den den', roundRatio_scale pos]

/-- The value of a code that is given by a significand and a power of two. A significand may have
been carried to the next power of two. -/
theorem codeValue_eq {fraction shift significand : Nat} (small : significand ≤ 2 * twoPow fraction)
    (normal : shift = 0 ∨ twoPow fraction ≤ significand) :
    codeValue fraction (shift * twoPow fraction + significand) = significand * twoPow shift := by
  have pos := twoPow_pos fraction
  by_cases subnormal : significand < twoPow fraction
  · obtain rfl : shift = 0 := by omega
    rw [Nat.zero_mul, Nat.zero_add, codeValue, if_pos subnormal]
    exact (Nat.mul_one _).symm
  · obtain ⟨part, rfl⟩ := Nat.exists_eq_add_of_le (Nat.le_of_not_lt subnormal)
    have code : shift * twoPow fraction + (twoPow fraction + part) =
        part + (shift + 1) * twoPow fraction := by ring
    have large : ¬ part + (shift + 1) * twoPow fraction < twoPow fraction := by
      rw [Nat.succ_mul]
      omega
    rw [code, codeValue, if_neg large, Nat.add_mul_mod_self_right, Nat.add_mul_div_right _ _ pos]
    by_cases carried : part = twoPow fraction
    · rw [carried, Nat.mod_self, Nat.div_self pos, show 1 + (shift + 1) - 1 = shift + 1 by omega,
        twoPow_succ]
      ring
    · have less : part < twoPow fraction := by omega
      rw [Nat.mod_eq_of_lt less, Nat.div_eq_of_lt less, show 0 + (shift + 1) - 1 = shift by omega]

/-- What rounding to a code gives: a significand and a power of two, the spacing of the codes
there, at most half of which lies between the ratio and its code. -/
structure Rounding (fraction num den shift significand : Nat) : Prop where
  code : roundRatio fraction num den = shift * twoPow fraction + significand
  small : significand ≤ 2 * twoPow fraction
  value : codeValue fraction (roundRatio fraction num den) = significand * twoPow shift
  below : 2 * num ≤ 2 * (significand * twoPow shift * den) + twoPow shift * den
  above : 2 * (significand * twoPow shift * den) ≤ 2 * num + twoPow shift * den
  coarse : shift = 0 ∨ twoPow (fraction + shift) * den ≤ num

theorem exists_rounding (fraction num : Nat) (pos : 0 < den) :
    ∃ shift significand, Rounding fraction num den shift significand := by
  obtain ⟨shift, isShift⟩ : ∃ shift, shift = (num / den).log2 - fraction := ⟨_, rfl⟩
  have pos' : 0 < den * twoPow shift := Nat.mul_pos pos (twoPow_pos shift)
  obtain ⟨below, above⟩ := roundHalfEven_near num pos'
  have code : roundRatio fraction num den =
      shift * twoPow fraction + roundHalfEven num (den * twoPow shift) := by
    rw [roundRatio, ← isShift]
  generalize roundHalfEven num (den * twoPow shift) = significand at *
  have assoc : significand * (den * twoPow shift) = significand * twoPow shift * den := by ring
  rw [assoc, Nat.mul_comm den] at below above
  have coarse : shift = 0 ∨ twoPow (fraction + shift) * den ≤ num := by
    by_cases exact : shift = 0
    · exact .inl exact
    · right
      have whole : num / den ≠ 0 := by
        intro zero
        rw [zero] at isShift
        exact exact (by simpa using isShift)
      have log : fraction + shift = (num / den).log2 := by omega
      have least : twoPow (num / den).log2 ≤ num / den := Nat.log2_self_le whole
      rw [log]
      exact (Nat.le_div_iff_mul_le pos).mp least
  have small : significand ≤ 2 * twoPow fraction := by
    have log : (num / den).log2 + 1 ≤ fraction + shift + 1 := by omega
    have most : num / den < twoPow (fraction + shift + 1) :=
      Nat.lt_of_lt_of_le Nat.lt_log2_self (twoPow_le_iff.mpr log)
    have bound : num < twoPow (fraction + shift + 1) * den := (Nat.div_lt_iff_lt_mul pos).mp most
    rw [twoPow_succ, twoPow_add] at bound
    by_contra more
    have := Nat.mul_le_mul_right (twoPow shift * den)
      (show 2 * twoPow fraction + 1 ≤ significand by omega)
    nlinarith
  refine ⟨shift, significand, code, small, ?_, below, above, coarse⟩
  rw [code]
  refine codeValue_eq small (coarse.imp_right fun large => ?_)
  by_contra less
  have := Nat.mul_le_mul_right (twoPow shift * den)
    (show significand + 1 ≤ twoPow fraction by omega)
  rw [twoPow_add] at large
  have pos := Nat.mul_pos (twoPow_pos shift) pos
  nlinarith

namespace Rounding

variable {fraction shift significand bound : Nat}

theorem le_value (rounding : Rounding fraction num den shift significand) (pos : 0 < den)
    (onGrid : twoPow shift ∣ bound) (le : bound * den ≤ num) :
    bound ≤ codeValue fraction (roundRatio fraction num den) := by
  obtain ⟨factor, rfl⟩ := onGrid
  have below := rounding.below
  rw [rounding.value]
  by_contra less
  have step : significand + 1 ≤ factor := by
    rw [Nat.not_le, Nat.mul_comm] at less
    exact Nat.lt_of_mul_lt_mul_left less
  have := Nat.mul_le_mul_right (twoPow shift * den) step
  have := Nat.mul_pos (twoPow_pos shift) pos
  nlinarith

theorem value_le (rounding : Rounding fraction num den shift significand) (pos : 0 < den)
    (onGrid : twoPow shift ∣ bound) (le : num ≤ bound * den) :
    codeValue fraction (roundRatio fraction num den) ≤ bound := by
  obtain ⟨factor, rfl⟩ := onGrid
  have above := rounding.above
  rw [rounding.value]
  by_contra more
  have step : factor + 1 ≤ significand := by
    rw [Nat.not_le, Nat.mul_comm] at more
    exact Nat.lt_of_mul_lt_mul_right more
  have := Nat.mul_le_mul_right (twoPow shift * den) step
  have := Nat.mul_pos (twoPow_pos shift) pos
  nlinarith

end Rounding

end Number

/-! ## Binary32 numbers -/

namespace Binary32

/-- The numbers around `x` are multiples of `2 ^ x.spacing` units. -/
def spacing (x : Binary32) : Nat := x.code / twoPow fractionBits - 1

/-- The number of spacings that a finite number is away from zero. -/
def significand (x : Binary32) : Nat := x.code - x.spacing * twoPow fractionBits

variable (x : Binary32)

theorem code_eq : x.code = x.spacing * twoPow fractionBits + x.significand := by
  have := Nat.div_mul_le_self x.code (twoPow fractionBits)
  have := Nat.mul_le_mul_right (twoPow fractionBits)
    (Nat.sub_le (x.code / twoPow fractionBits) 1)
  unfold significand spacing
  omega

theorem significand_lt : x.significand < 2 * twoPow fractionBits := by
  have pos := twoPow_pos fractionBits
  have less := Nat.lt_div_mul_add (a := x.code) pos
  unfold significand spacing
  rcases Nat.eq_zero_or_eq_succ_pred (x.code / twoPow fractionBits) with zero | next
  · rw [zero] at less ⊢
    omega
  · rw [next, Nat.succ_mul] at less
    rw [next, Nat.succ_sub_one]
    omega

/-- Only at the least spacing is a significand not normal. -/
theorem normal : x.spacing = 0 ∨ twoPow fractionBits ≤ x.significand := by
  by_cases least : x.spacing = 0
  · exact .inl least
  · right
    have := Nat.div_mul_le_self x.code (twoPow fractionBits)
    have next : x.code / twoPow fractionBits = x.spacing + 1 := by
      unfold spacing at least ⊢
      omega
    rw [next, Nat.succ_mul] at this
    have := x.code_eq
    omega

theorem units_eq : x.units = x.significand * twoPow x.spacing := by
  unfold units
  rw [x.code_eq]
  exact Number.codeValue_eq (Nat.le_of_lt x.significand_lt) x.normal

theorem significand_mod_two : x.significand % 2 = x.code % 2 := by
  have even : twoPow fractionBits = 2 * twoPow 22 := twoPow_succ 22
  have code := x.code_eq
  rw [even, Nat.mul_left_comm] at code
  omega

/-! ### The interval of a number -/

/-- The numbers that are powers of two and have closer numbers below them. -/
def IsNarrow : Prop := 0 < x.spacing ∧ x.significand = twoPow fractionBits

theorem interval_high (den : Nat) :
    x.interval.high * den =
      4 * (x.significand * (twoPow x.spacing * den)) + 2 * (twoPow x.spacing * den) := by
  show (4 * x.units + 2 * twoPow x.spacing) * den = _
  rw [x.units_eq]
  ring

theorem isNarrow_iff :
    x.IsNarrow ↔ x.code % twoPow fractionBits = 0 ∧ twoPow (fractionBits + 1) ≤ x.code := by
  have pos := twoPow_pos fractionBits
  have code := x.code_eq
  have small := x.significand_lt
  rw [twoPow_succ]
  constructor
  · rintro ⟨spaced, power⟩
    have multiple : x.code = (x.spacing + 1) * twoPow fractionBits := by
      rw [code, power, Nat.succ_mul]
    have large := Nat.mul_le_mul_right (twoPow fractionBits) (show 2 ≤ x.spacing + 1 by omega)
    exact ⟨by rw [multiple, Nat.mul_mod_left], by omega⟩
  · rintro ⟨exact, large⟩
    have spaced : 0 < x.spacing := by
      by_contra least
      rw [show x.spacing = 0 by omega, Nat.zero_mul] at code
      omega
    refine ⟨spaced, ?_⟩
    have normal : twoPow fractionBits ≤ x.significand := by
      rcases x.normal with least | normal
      · omega
      · exact normal
    rw [code, Nat.mul_add_mod_self_right, Nat.mod_eq_sub_mod normal,
      Nat.mod_eq_of_lt (by omega)] at exact
    omega

theorem interval_low_of_narrow (narrow : x.IsNarrow) (den : Nat) :
    x.interval.low * den =
      4 * (x.significand * (twoPow x.spacing * den)) - twoPow x.spacing * den := by
  have isLow : x.interval.low = 4 * x.units - twoPow x.spacing := by
    unfold interval
    simp [x.isNarrow_iff.mp narrow, spacing]
  rw [isLow, x.units_eq, Nat.sub_mul]
  congr 1
  ring

theorem interval_low_of_wide (wide : ¬ x.IsNarrow) (den : Nat) :
    x.interval.low * den =
      4 * (x.significand * (twoPow x.spacing * den)) - 2 * (twoPow x.spacing * den) := by
  have isLow : x.interval.low = 4 * x.units - 2 * twoPow x.spacing := by
    rw [x.isNarrow_iff] at wide
    unfold interval
    simp only [Bool.and_eq_true, decide_eq_true_eq, if_neg wide, spacing]
  rw [isLow, x.units_eq, Nat.sub_mul, Nat.mul_assoc 2]
  congr 1
  ring

/-- The ratio `num / den`, counted in quarters of a unit, lies in the interval. -/
def Interval.Encloses (i : Interval) (num den : Nat) : Prop :=
  if i.closed then i.low * den ≤ num ∧ num ≤ i.high * den
  else i.low * den < num ∧ num < i.high * den

namespace Interval.Encloses

variable {i : Interval} {x : Binary32} {num den : Nat}

theorem low_le (encloses : i.Encloses num den) : i.low * den ≤ num := by
  unfold Encloses at encloses
  split_ifs at encloses <;> omega

theorem le_high (encloses : i.Encloses num den) : num ≤ i.high * den := by
  unfold Encloses at encloses
  split_ifs at encloses <;> omega

/-- The interval of a number with an odd code has no ends. -/
theorem of_odd (encloses : x.interval.Encloses num den) (odd : x.code % 2 = 1) :
    x.interval.low * den < num ∧ num < x.interval.high * den := by
  have isOpen : x.interval.closed = false := decide_eq_false (by omega)
  simpa [Encloses, isOpen] using encloses

end Interval.Encloses

variable {x} {num den : Nat}

/-- A ratio is rounded to a number if it is in its interval and not below the power of two at which
its spacing starts. -/
theorem roundRatio_of_spacing (pos : 0 < den) (encloses : x.interval.Encloses (4 * num) den)
    (least : x.spacing = 0 ∨ twoPow (fractionBits + x.spacing) * den ≤ num) :
    Number.roundRatio fractionBits num den = x.code := by
  have unit : 0 < twoPow x.spacing * den := Nat.mul_pos (twoPow_pos _) pos
  have low := encloses.low_le
  have high := encloses.le_high
  have isHigh := x.interval_high den
  have isLow : 4 * (x.significand * (twoPow x.spacing * den)) ≤
      x.interval.low * den + 2 * (twoPow x.spacing * den) := by
    by_cases narrow : x.IsNarrow
    · have := x.interval_low_of_narrow narrow den
      omega
    · have := x.interval_low_of_wide narrow den
      omega
  have most : num < twoPow (fractionBits + x.spacing + 1) * den := by
    have := Nat.mul_le_mul_right (twoPow x.spacing * den)
      (show x.significand + 1 ≤ 2 * twoPow fractionBits from x.significand_lt)
    rw [twoPow_succ, twoPow_add]
    linarith
  rw [x.code_eq]
  refine Number.roundRatio_eq pos least most ?_
  rw [Nat.mul_comm den]
  refine Number.roundHalfEven_eq unit (by omega) (by omega) ?_
  intro tie
  rw [x.significand_mod_two]
  by_contra notEven
  obtain ⟨low, high⟩ := encloses.of_odd (by omega)
  omega

/-- Below a power of two a ratio is rounded with half the spacing, and up to the power of two. -/
theorem roundRatio_of_narrow (pos : 0 < den) (encloses : x.interval.Encloses (4 * num) den)
    (narrow : x.IsNarrow) (below : num < twoPow fractionBits * (twoPow x.spacing * den)) :
    Number.roundRatio fractionBits num den = x.code := by
  have low := encloses.low_le
  rw [x.interval_low_of_narrow narrow] at low
  obtain ⟨spaced, power⟩ := narrow
  obtain ⟨spacing, isNext⟩ := Nat.exists_eq_add_of_lt spaced
  rw [Nat.zero_add] at isNext
  have unit : 0 < twoPow spacing * den := Nat.mul_pos (twoPow_pos _) pos
  have least := Nat.le_mul_of_pos_left (twoPow spacing * den) (twoPow_pos fractionBits)
  have double : twoPow (spacing + 1) * den = 2 * (twoPow spacing * den) := by
    rw [twoPow_succ, Nat.mul_assoc]
  rw [power, isNext, double, Nat.mul_left_comm _ 2] at low
  rw [isNext, double, Nat.mul_left_comm _ 2] at below
  have code : x.code = spacing * twoPow fractionBits + 2 * twoPow fractionBits := by
    rw [x.code_eq, power, isNext]
    ring
  rw [code]
  refine Number.roundRatio_eq pos (.inr ?_) ?_ ?_
  · rw [twoPow_add, Nat.mul_assoc]
    omega
  · rw [twoPow_succ, twoPow_add, Nat.mul_assoc, Nat.mul_assoc]
    exact below
  · rw [Nat.mul_comm den]
    refine Number.roundHalfEven_eq unit ?_ ?_ fun _ => Nat.mul_mod_right 2 _
    · rw [Nat.mul_assoc]
      omega
    · rw [Nat.mul_assoc]
      omega

/-- A ratio in the interval of a number is rounded to the code of the number. -/
theorem roundRatio_of_encloses (pos : 0 < den) (encloses : x.interval.Encloses (4 * num) den) :
    Number.roundRatio fractionBits num den = x.code := by
  by_cases narrow : x.IsNarrow
  · by_cases least : twoPow (fractionBits + x.spacing) * den ≤ num
    · exact roundRatio_of_spacing pos encloses (.inr least)
    · rw [Nat.not_le, twoPow_add, Nat.mul_assoc] at least
      exact roundRatio_of_narrow pos encloses narrow least
  · refine roundRatio_of_spacing pos encloses ?_
    by_cases spaced : x.spacing = 0
    · exact .inl spaced
    · have low := encloses.low_le
      have normal := x.normal.resolve_left spaced
      have wide : twoPow fractionBits ≠ x.significand :=
        fun power => narrow ⟨Nat.pos_of_ne_zero spaced, power.symm⟩
      have := Nat.mul_le_mul_right (twoPow x.spacing * den)
        (show twoPow fractionBits + 1 ≤ x.significand by omega)
      rw [x.interval_low_of_wide narrow] at low
      rw [Nat.succ_mul] at this
      rw [twoPow_add, Nat.mul_assoc]
      omega

end Binary32

end ImageFormula
