import ImageFormula.Proofs.Midpoints

/-!
# Rounding twice

A decimal that is read is rounded to binary64 first and to binary32 then. The ends of the interval
of a binary32 number are binary64 numbers, so the first rounding does not leave the interval, but it
can end on one of its ends. For a number with an odd code this is too far. It happens to a shortest
decimal only if the decimal is close to a midpoint, and then its grid is as coarse as the spacing of
the numbers, for otherwise the next multiple would be nearer (`Binary32.isCoarse_of_close`).

`Binary32.nearest_of_wide` says for which numbers the second rounding gives the number back.
-/

namespace ImageFormula.Binary32

open Number

variable {x : Binary32} {power factor shift significand m : Nat}

/-! ## Ends of intervals -/

theorem spacing_dvd_high (x : Binary32) : twoPow x.spacing ∣ x.interval.high := by
  have high := x.interval_high 1
  simp only [Nat.mul_one] at high
  exact ⟨4 * x.significand + 2, by rw [high]; ring⟩

theorem spacing_dvd_low (x : Binary32) : twoPow x.spacing ∣ x.interval.low := by
  by_cases narrow : x.IsNarrow
  · have low := x.interval_low_of_narrow narrow 1
    simp only [Nat.mul_one] at low
    exact ⟨4 * x.significand - 1, by rw [low, Nat.mul_sub]; congr 1 <;> ring⟩
  · have low := x.interval_low_of_wide narrow 1
    simp only [Nat.mul_one] at low
    exact ⟨4 * x.significand - 2, by rw [low, Nat.mul_sub]; congr 1 <;> ring⟩

theorem scaled_value (x : Binary32) :
    x.interval.scale.value = 2 * x.significand * halfSpacing x.spacing := by
  show 4 * x.units * tenPow leastPower = _
  rw [x.units_eq, halfSpacing, twoPow_succ]
  ring

theorem scaled_high (x : Binary32) :
    x.interval.high * tenPow leastPower = x.interval.scale.value + halfSpacing x.spacing := by
  rw [x.scaled_value, x.interval_high, halfSpacing, twoPow_succ]
  ring

theorem scaled_low (odd : x.code % 2 = 1) :
    x.interval.low * tenPow leastPower + halfSpacing x.spacing = x.interval.scale.value := by
  have parity := x.significand_mod_two
  have wide : ¬ x.IsNarrow := by
    intro narrow
    rw [narrow.2, odd] at parity
    exact absurd parity (by decide)
  have half : halfSpacing x.spacing = 2 * (twoPow x.spacing * tenPow leastPower) := by
    rw [halfSpacing, twoPow_succ, Nat.mul_assoc]
  have large := Nat.le_mul_of_pos_left (twoPow x.spacing * tenPow leastPower)
    (show 0 < x.significand by omega)
  have value : x.interval.scale.value =
      4 * (x.significand * (twoPow x.spacing * tenPow leastPower)) := by
    rw [x.scaled_value, half]
    ring
  rw [x.interval_low_of_wide wide, half, value]
  omega

/-! ## Decimals close to an end -/

/-- The ends of the interval of a number, as multiples of half the spacing. -/
def IsEnd (x : Binary32) (m : Nat) : Prop := m = 2 * x.significand + 1 ∨ m + 1 = 2 * x.significand

/-- If a grid were finer than the spacing, the next multiple would be in the interval and nearer. -/
theorem isCoarse_of_close (odd : x.code % 2 = 1) (stands : x.StandsFor power factor)
    (isEnd : x.IsEnd m)
    (close : Close (halfSpacing x.spacing) (factor * gridStep power) (m * halfSpacing x.spacing)) :
    IsCoarse x.spacing power := by
  have step := gridStep_pos power
  have low := scaled_low odd
  have high := x.scaled_high
  have isOpen : x.interval.closed = false := decide_eq_false (by omega)
  obtain ⟨above, below⟩ := stands.encloses.of_odd odd
  have nearest := stands.nearest
  simp only [Interval.Encloses, isOpen, Bool.false_eq_true, if_false] at nearest
  by_contra fine
  unfold IsCoarse at fine
  obtain ⟨le, ge⟩ := close
  rw [show twoPow 29 = 536870912 from rfl] at fine le ge
  rcases isEnd with rfl | isEnd
  · have isMidpoint : (2 * x.significand + 1) * halfSpacing x.spacing =
        x.interval.scale.value + halfSpacing x.spacing := by
      rw [x.scaled_value, Nat.succ_mul]
    -- the multiple before it is nearer
    cases factor with
    | zero => omega
    | succ before =>
        have next : (before + 1) * gridStep power = before * gridStep power + gridStep power :=
          Nat.succ_mul _ _
        have less := nearest before ⟨by omega, by omega⟩
        unfold Interval.distance at less
        omega
  · have isMidpoint : m * halfSpacing x.spacing + halfSpacing x.spacing =
        x.interval.scale.value := by
      rw [x.scaled_value, ← isEnd, Nat.succ_mul]
    -- the multiple after it is nearer
    have next : (factor + 1) * gridStep power = factor * gridStep power + gridStep power :=
      Nat.succ_mul _ _
    have less := nearest (factor + 1) ⟨by omega, by omega⟩
    unfold Interval.distance at less
    omega

/-! ## The first rounding -/

theorem factor_lt (stands : x.StandsFor power factor) :
    factor * gridStep power < twoPow 25 * halfSpacing x.spacing := by
  have high := stands.encloses.le_high
  have small := x.significand_lt
  have unit := halfSpacing_pos x.spacing
  have large := Nat.mul_le_mul_right (halfSpacing x.spacing)
    (show 2 * x.significand + 2 ≤ twoPow 25 by
      rw [show twoPow 25 = 4 * twoPow fractionBits from rfl]
      omega)
  rw [x.scaled_high, x.scaled_value] at high
  rw [Nat.add_mul] at large
  omega

/-- A quarter of a unit of binary32, in units of binary64. -/
def wideQuarter : Nat := twoPow 923

/-- The code of the binary64 number nearest to a multiple of a power of ten. -/
def wideCode (power factor : Nat) : Nat :=
  roundRatio 52 (factor * gridStep power * wideQuarter) (tenPow leastPower)

/-- The rounding of a multiple to binary64. -/
abbrev WideRounding (power factor shift significand : Nat) : Prop :=
  Rounding 52 (factor * gridStep power * wideQuarter) (tenPow leastPower) shift significand

section

variable (stands : x.StandsFor power factor)
  (rounding : WideRounding power factor shift significand)

include stands rounding

/-- The spacing of binary64 is finer by `2 ^ 29`. -/
theorem shift_le : shift ≤ x.spacing + 896 := by
  rcases rounding.coarse with rfl | coarse
  · omega
  · have less := Nat.mul_lt_mul_of_pos_right (factor_lt stands) (twoPow_pos 923)
    have power : twoPow 25 * halfSpacing x.spacing * twoPow 923 =
        twoPow (x.spacing + 949) * tenPow leastPower := by
      rw [halfSpacing, show x.spacing + 949 = 25 + (x.spacing + 1) + 923 by omega,
        twoPow_add (25 + (x.spacing + 1)), twoPow_add 25]
      ring
    rw [power] at less
    have := twoPow_lt_iff.mp (Nat.lt_of_mul_lt_mul_right (Nat.lt_of_le_of_lt coarse less))
    omega

theorem shift_dvd {bound : Nat} (multiple : twoPow x.spacing ∣ bound) :
    twoPow shift ∣ bound * wideQuarter := by
  have fine : twoPow shift ∣ twoPow x.spacing * twoPow 923 := by
    rw [← twoPow_add]
    have := shift_le stands rounding
    exact twoPow_dvd (by omega)
  exact Nat.dvd_trans fine (Nat.mul_dvd_mul_right multiple _)

/-- The first rounding does not leave the interval, but it can end on one of its ends. -/
theorem wide_between :
    x.interval.low * wideQuarter ≤ codeValue 52 (wideCode power factor) ∧
      codeValue 52 (wideCode power factor) ≤ x.interval.high * wideQuarter := by
  have low := stands.encloses.low_le
  have high := stands.encloses.le_high
  constructor
  · refine rounding.le_value (tenPow_pos _) (shift_dvd stands rounding x.spacing_dvd_low) ?_
    rw [Nat.mul_right_comm x.interval.low]
    exact Nat.mul_le_mul_right _ low
  · refine rounding.value_le (tenPow_pos _) (shift_dvd stands rounding x.spacing_dvd_high) ?_
    rw [Nat.mul_right_comm x.interval.high]
    exact Nat.mul_le_mul_right _ high

/-- A multiple that is rounded to an end of the interval is close to it. -/
theorem close_of_wide (isEnd : codeValue 52 (wideCode power factor) * tenPow leastPower =
      m * halfSpacing x.spacing * wideQuarter) :
    Close (halfSpacing x.spacing) (factor * gridStep power) (m * halfSpacing x.spacing) := by
  have below := rounding.below
  have above := rounding.above
  have value := rounding.value
  rw [wideCode, value] at isEnd
  rw [isEnd] at below above
  have fine : twoPow 28 * (twoPow shift * tenPow leastPower) ≤
      halfSpacing x.spacing * wideQuarter := by
    have := Nat.mul_le_mul_right (tenPow leastPower)
      (twoPow_le_iff.mpr (show 28 + shift ≤ x.spacing + 1 + 923 by
        have := shift_le stands rounding
        omega))
    rw [twoPow_add 28, twoPow_add (x.spacing + 1)] at this
    unfold halfSpacing wideQuarter
    linarith
  have positive : 0 < wideQuarter := twoPow_pos 923
  generalize wideQuarter = quarter at *
  generalize twoPow shift * tenPow leastPower = half at *
  rw [show twoPow 28 = 268435456 from rfl] at fine
  constructor
  · rw [show twoPow 29 = 536870912 from rfl]
    refine Nat.le_of_mul_le_mul_right ?_ positive
    linarith
  · rw [show twoPow 29 = 536870912 from rfl]
    refine Nat.le_of_mul_le_mul_right ?_ positive
    linarith

end

/-! ## The second rounding -/

/-- The code of the number whose shortest decimal is close to a midpoint. -/
def closeCode : Nat := 0x15AE43FD

/-- Only one number has a shortest decimal that the first rounding takes to an end of its
interval. -/
theorem not_end_of_odd (odd : x.code % 2 = 1) (member : x.spacing ∈ spacings)
    (other : x.code ≠ closeCode) (stands : x.StandsFor power factor) (isEnd : x.IsEnd m)
    {bound : Nat} (isBound : bound * tenPow leastPower = m * halfSpacing x.spacing)
    (ne : factor * gridStep power ≠ bound * tenPow leastPower) :
    codeValue 52 (wideCode power factor) ≠ bound * wideQuarter := by
  intro atEnd
  obtain ⟨shift, significand, rounding⟩ :=
    exists_rounding 52 (factor * gridStep power * wideQuarter) (tenPow_pos leastPower)
  have close : Close _ _ (m * halfSpacing x.spacing) :=
    close_of_wide stands rounding (by rw [atEnd, Nat.mul_right_comm, isBound])
  have coarse := isCoarse_of_close odd stands isEnd close
  have parity := x.significand_mod_two
  have positive : 0 < m := by
    unfold IsEnd at isEnd
    omega
  rw [isBound] at ne
  obtain ⟨isSpacing, rfl⟩ := close_midpoint member coarse positive (factor_lt stands) close ne
  have code := x.code_eq
  rw [isSpacing] at code
  rcases isEnd with upper | lower
  · have isSignificand : x.significand = 11420669 := by omega
    rw [isSignificand] at code
    exact other code
  · -- the other number at this midpoint has an even code
    omega

/-- The binary64 number nearest to the shortest decimal of a binary32 number is rounded back to it,
with one exception. -/
theorem nearest_of_wide (member : x.spacing ∈ spacings) (other : x.code ≠ closeCode)
    (stands : x.StandsFor power factor) :
    roundRatio fractionBits (codeValue 52 (wideCode power factor)) (4 * wideQuarter) = x.code := by
  obtain ⟨shift, significand, rounding⟩ :=
    exists_rounding 52 (factor * gridStep power * wideQuarter) (tenPow_pos leastPower)
  obtain ⟨low, high⟩ := wide_between stands rounding
  refine roundRatio_of_encloses (Nat.mul_pos (by decide) (twoPow_pos 923)) ?_
  unfold Interval.Encloses
  rw [Nat.mul_left_comm x.interval.low, Nat.mul_left_comm x.interval.high]
  by_cases odd : x.code % 2 = 1
  · have isOpen : x.interval.closed = false := decide_eq_false (by omega)
    have parity := x.significand_mod_two
    obtain ⟨above, below⟩ := stands.encloses.of_odd odd
    have isLow : x.interval.low * tenPow leastPower =
        (2 * x.significand - 1) * halfSpacing x.spacing := by
      have := scaled_low odd
      rw [x.scaled_value, show 2 * x.significand = 2 * x.significand - 1 + 1 by omega,
        Nat.succ_mul] at this
      omega
    have isHigh : x.interval.high * tenPow leastPower =
        (2 * x.significand + 1) * halfSpacing x.spacing := by
      rw [x.scaled_high, x.scaled_value, Nat.succ_mul (2 * x.significand)]
    have notLow := not_end_of_odd odd member other stands (.inr (by omega)) isLow (by omega)
    have notHigh := not_end_of_odd odd member other stands (.inl rfl) isHigh (by omega)
    rw [isOpen, if_neg (by decide)]
    omega
  · have closed : x.interval.closed = true := decide_eq_true (by omega)
    rw [closed, if_pos rfl]
    omega

end ImageFormula.Binary32
