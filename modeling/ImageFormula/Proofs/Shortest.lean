import ImageFormula.Proofs.Rounding

/-!
# Shortest decimals

The shortest decimal of a binary32 number is a multiple of a power of ten. It lies in the interval
of the number, and no other multiple of the same power there is nearer to the number
(`Binary32.exists_shortest`).
-/

namespace ImageFormula.Binary32

/-! ## Multiples in an interval -/

namespace Interval

/-- How far a point is from the value of the interval. -/
def distance (i : Interval) (point : Nat) : Nat := (point - i.value) + (i.value - point)

variable {i : Interval} {tie : Tie} {step factor other : Nat}

theorem holds_of_between {a b c : Nat} (holds : i.holds a = true) (holds' : i.holds c = true)
    (le : a ≤ b) (le' : b ≤ c) : i.holds b = true := by
  unfold Interval.holds at *
  split_ifs at * <;> simp only [Bool.and_eq_true, decide_eq_true_eq] at * <;> omega

theorem value_lt_next (pos : 0 < step) : i.value < (i.value / step + 1) * step := by
  rw [Nat.succ_mul]
  exact Nat.lt_div_mul_add pos

theorem nearest_le (tie : Tie) (pos : 0 < step) :
    i.distance (i.nearest tie step * step) ≤ i.distance (i.value / step * step) ∧
      i.distance (i.nearest tie step * step) ≤ i.distance ((i.value / step + 1) * step) := by
  have below : i.value / step * step ≤ i.value := Nat.div_mul_le_self _ _
  have above := i.value_lt_next pos
  unfold Interval.nearest distance
  simp only [Bool.and_eq_true, beq_iff_eq]
  split_ifs <;> omega

theorem nearest_eq (tie : Tie) (step : Nat) :
    i.nearest tie step = i.value / step ∨ i.nearest tie step = i.value / step + 1 := by
  unfold Interval.nearest
  simp only
  split_ifs <;> simp

/-- Another multiple in the interval lies beyond one of the two around its value, which is then in
the interval as well. -/
theorem beyond (pos : 0 < step) (inside : i.holds i.value = true)
    (held : i.holds (other * step) = true) :
    (i.holds (i.value / step * step) = true ∧
      i.distance (i.value / step * step) ≤ i.distance (other * step)) ∨
    (i.holds ((i.value / step + 1) * step) = true ∧
      i.distance ((i.value / step + 1) * step) ≤ i.distance (other * step)) := by
  have below : i.value / step * step ≤ i.value := Nat.div_mul_le_self _ _
  have above := Nat.le_of_lt (i.value_lt_next pos)
  by_cases less : other ≤ i.value / step
  · have le := Nat.mul_le_mul_right step less
    refine .inl ⟨holds_of_between held inside le below, ?_⟩
    unfold distance
    omega
  · have le := Nat.mul_le_mul_right step (show i.value / step + 1 ≤ other by omega)
    refine .inr ⟨holds_of_between inside held above le, ?_⟩
    unfold distance
    omega

/-- What is found is in the interval, and no other multiple there is nearer to its value. -/
theorem multiple?_spec (pos : 0 < step) (inside : i.holds i.value = true)
    (found : i.multiple? tie step = some factor) :
    i.holds (factor * step) = true ∧ ∀ other, i.holds (other * step) = true →
      i.distance (factor * step) ≤ i.distance (other * step) := by
  obtain ⟨nearBelow, nearAbove⟩ := i.nearest_le tie pos
  unfold Interval.multiple? at found
  simp only at found
  cases below : i.holds (i.value / step * step) with
  | true =>
      cases above : i.holds ((i.value / step + 1) * step) with
      | true =>
          rw [below, above] at found
          obtain rfl := Option.some.inj found
          refine ⟨?_, fun other held => ?_⟩
          · rcases i.nearest_eq tie step with same | same
            · rw [same, below]
            · rw [same, above]
          · rcases beyond pos inside held with ⟨-, le⟩ | ⟨-, le⟩
            · exact Nat.le_trans nearBelow le
            · exact Nat.le_trans nearAbove le
      | false =>
          rw [below, above] at found
          obtain rfl := Option.some.inj found
          refine ⟨below, fun other held => ?_⟩
          rcases beyond pos inside held with ⟨-, le⟩ | ⟨isHeld, -⟩
          · exact le
          · rw [above] at isHeld
            contradiction
  | false =>
      cases above : i.holds ((i.value / step + 1) * step) with
      | true =>
          rw [below, above] at found
          obtain rfl := Option.some.inj found
          refine ⟨above, fun other held => ?_⟩
          rcases beyond pos inside held with ⟨isHeld, -⟩ | ⟨-, le⟩
          · rw [below] at isHeld
            contradiction
          · exact le
      | false =>
          rw [below, above] at found
          contradiction

/-- A grid that is not wider than the interval on either side of its value has a point in it. -/
theorem exists_multiple (tie : Tie) (pos : 0 < step) (low : step < 2 * (i.value - i.low))
    (high : step < 2 * (i.high - i.value)) : ∃ factor, i.multiple? tie step = some factor := by
  have below : i.value / step * step ≤ i.value := Nat.div_mul_le_self _ _
  have above := i.value_lt_next pos
  have next : (i.value / step + 1) * step = i.value / step * step + step := Nat.succ_mul _ _
  have held : i.holds (i.value / step * step) = true ∨
      i.holds ((i.value / step + 1) * step) = true := by
    unfold Interval.holds
    split_ifs <;> simp only [Bool.and_eq_true, decide_eq_true_eq] <;> omega
  unfold Interval.multiple?
  simp only
  rcases held with held | held
  · rw [held]
    cases i.holds ((i.value / step + 1) * step) <;> simp
  · rw [held]
    cases i.holds (i.value / step * step) <;> simp

end Interval

/-! ## The shortest decimal -/

/-- The step from one multiple of `10 ^ (power - 45)` to the next, scaled like intervals. -/
def gridStep (power : Nat) : Nat := tenPow power * twoPow (unitExponent + 2)

theorem gridStep_pos (power : Nat) : 0 < gridStep power :=
  Nat.mul_pos (tenPow_pos _) (twoPow_pos _)

theorem Interval.coarsest_spec {i : Interval} {tie : Tie} (power : Nat)
    (finest : ∃ factor, i.multiple? tie (gridStep 0) = some factor) :
    ∃ power' factor, power' ≤ power ∧ i.coarsest tie power = ⟨factor, (power' : Int) - leastPower⟩ ∧
      i.multiple? tie (gridStep power') = some factor := by
  induction power with
  | zero =>
      obtain ⟨factor, found⟩ := finest
      have isStep : gridStep 0 = twoPow (unitExponent + 2) := Nat.one_mul _
      refine ⟨0, factor, Nat.le_refl 0, ?_, found⟩
      rw [isStep] at found
      rw [Interval.coarsest, found]
      rfl
  | succ power ih =>
      rw [Interval.coarsest]
      cases found : i.multiple? tie (tenPow (power + 1) * twoPow (unitExponent + 2)) with
      | some factor => exact ⟨power + 1, factor, Nat.le_refl _, rfl, found⟩
      | none =>
          obtain ⟨power', factor, le, same, found'⟩ := ih
          exact ⟨power', factor, by omega, same, found'⟩

theorem Interval.scale_holds {i : Interval} {point : Nat} :
    i.scale.holds point = true ↔ i.Encloses point (tenPow leastPower) := by
  unfold Interval.holds Interval.Encloses Interval.scale
  split_ifs <;> simp only [Bool.and_eq_true, decide_eq_true_eq]

variable {x : Binary32}

theorem significand_pos (nonzero : x.isZero = false) : 0 < x.significand := by
  have code : x.code ≠ 0 := of_decide_eq_false nonzero
  rcases x.normal with least | normal
  · have := x.code_eq
    rw [least, Nat.zero_mul] at this
    omega
  · exact Nat.lt_of_lt_of_le (twoPow_pos _) normal

/-- The interval of a number goes on for at least two quarters of a unit on both sides. -/
theorem interval_wide (nonzero : x.isZero = false) :
    x.interval.low + 2 ≤ x.interval.value ∧ x.interval.value + 2 ≤ x.interval.high := by
  have value : x.interval.value = 4 * (x.significand * twoPow x.spacing) := by
    rw [← x.units_eq]
    rfl
  have gap := twoPow_pos x.spacing
  have large := Nat.le_mul_of_pos_left (twoPow x.spacing) (significand_pos nonzero)
  have high := x.interval_high 1
  simp only [Nat.mul_one] at high
  refine ⟨?_, by omega⟩
  by_cases narrow : x.IsNarrow
  · have low := x.interval_low_of_narrow narrow 1
    have double : 2 * 1 ≤ twoPow x.spacing := by
      obtain ⟨spacing, isNext⟩ := Nat.exists_eq_add_of_lt narrow.1
      rw [isNext, twoPow_succ]
      exact Nat.mul_le_mul_left 2 (twoPow_pos _)
    simp only [Nat.mul_one] at low
    omega
  · have low := x.interval_low_of_wide narrow 1
    simp only [Nat.mul_one] at low
    omega

/-- A multiple of a power of ten that stands for a number: it is in the interval of the number, and
no other multiple there is nearer to the number. -/
structure StandsFor (x : Binary32) (power factor : Nat) : Prop where
  encloses : x.interval.Encloses (factor * gridStep power) (tenPow leastPower)
  nearest : ∀ other, x.interval.Encloses (other * gridStep power) (tenPow leastPower) →
    x.interval.scale.distance (factor * gridStep power) ≤
      x.interval.scale.distance (other * gridStep power)

theorem exists_shortest (nonzero : x.isZero = false) (tie : Tie) :
    ∃ power factor, power ≤ leastPower + 38 ∧
      x.shortest tie = ⟨factor, (power : Int) - leastPower⟩ ∧ x.StandsFor power factor := by
  obtain ⟨low, high⟩ := interval_wide nonzero
  have low' := Nat.mul_le_mul_right (tenPow leastPower) low
  have high' := Nat.mul_le_mul_right (tenPow leastPower) high
  rw [Nat.add_mul] at low' high'
  have finest : ∃ factor, x.interval.scale.multiple? tie (gridStep 0) = some factor := by
    have fine : gridStep 0 < 2 * (2 * tenPow leastPower) := by decide
    refine Interval.exists_multiple tie (gridStep_pos 0) ?_ ?_
    · show gridStep 0 < 2 * (x.interval.value * tenPow leastPower -
        x.interval.low * tenPow leastPower)
      omega
    · show gridStep 0 < 2 * (x.interval.high * tenPow leastPower -
        x.interval.value * tenPow leastPower)
      omega
  have inside : x.interval.scale.holds x.interval.scale.value = true := by
    have positive : 0 < tenPow leastPower := tenPow_pos _
    rw [Interval.scale_holds]
    unfold Interval.Encloses Interval.scale
    simp only
    split_ifs <;> omega
  obtain ⟨power, factor, le, isShortest, found⟩ :=
    Interval.coarsest_spec (leastPower + 38) finest
  obtain ⟨held, nearest⟩ := Interval.multiple?_spec (gridStep_pos power) inside found
  refine ⟨power, factor, le, ?_, Interval.scale_holds.mp held, fun other encloses => ?_⟩
  · rw [shortest, nonzero]
    exact isShortest
  · exact nearest other (Interval.scale_holds.mpr encloses)

end ImageFormula.Binary32
