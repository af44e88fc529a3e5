import ImageFormula.Number.Elementary
import ImageFormula.Proofs.Rounding

/-!
# Integers among the numbers

A finite number is an integer if its units are a multiple of those of 1. Two tests find the
integers: what is left over the integer part vanishes (`fract_equals_zero`), and what is left over
the greatest integer below does (`frac_equals_zero`). They agree since nothing is rounded to zero
(`ofRatio_equals_zero`) and the integers around a number are numbers themselves (`exact_trunc`,
`exact_floor`). Of an integer, the remainder by two is zero or one in magnitude
(`remainder_two`), so it is odd just if this remainder does not vanish.
-/

namespace ImageFormula.Binary32

open Number

variable {x y : Binary32} {negative : Bool}

/-! ## Signs and codes -/

@[simp] theorem code_negate (x : Binary32) : (-x).code = x.code := by
  show (x.bits ^^^ 0x80000000).toNat % 2 ^ 31 = x.bits.toNat % 2 ^ 31
  rw [UInt32.toNat_xor, Nat.xor_mod_two_pow]
  exact Nat.xor_zero _

@[simp] theorem isNegative_negate (x : Binary32) : (-x).isNegative = !x.isNegative := by
  have small := x.bits.toNat_lt
  have small' := (-x).bits.toNat_lt
  -- the sign is bit 31, and nothing is above it
  have top {n : Nat} (less : n < 2 ^ 32) : decide (0x80000000 ≤ n) = n.testBit 31 := by
    rw [Nat.testBit_eq_decide_div_mod_eq, decide_eq_decide]
    omega
  have flipped : (-x).bits.toNat = x.bits.toNat ^^^ 2 ^ 31 := UInt32.toNat_xor _ _
  rw [isNegative, isNegative, top small', top small, flipped, Nat.testBit_xor,
    Nat.testBit_two_pow_self, Bool.xor_true]

theorem signedUnits_negate (x : Binary32) : (-x).signedUnits = -x.signedUnits := by
  unfold signedUnits units
  rw [code_negate, isNegative_negate]
  cases x.isNegative <;> simp

theorem bits_ofCode (negative : Bool) (code : Nat) : (ofCode negative code).bits.toNat =
    min code infinityCode + if negative then 0x80000000 else 0 := by
  have small : min code infinityCode ≤ 0x7F800000 := Nat.min_le_right _ _
  rw [ofCode, UInt32.toNat_ofNat']
  cases negative
  · simp only [Bool.false_eq_true, if_false]
    omega
  · simp only [if_true]
    omega

theorem code_ofCode (negative : Bool) (code : Nat) :
    (ofCode negative code).code = min code infinityCode := by
  have small : min code infinityCode ≤ 0x7F800000 := Nat.min_le_right _ _
  rw [Binary32.code, bits_ofCode]
  cases negative
  · simp only [Bool.false_eq_true, if_false]
    omega
  · simp only [if_true]
    omega

theorem isNegative_ofCode (negative : Bool) (code : Nat) :
    (ofCode negative code).isNegative = negative := by
  have small : min code infinityCode ≤ 0x7F800000 := Nat.min_le_right _ _
  rw [isNegative, bits_ofCode]
  cases negative
  · simp only [Bool.false_eq_true, if_false, decide_eq_false_iff_not]
    omega
  · simp only [if_true, decide_eq_true_eq]
    omega

theorem isNaN_of_isFinite (finite : x.isFinite = true) : x.isNaN = false := by
  have less : x.code < infinityCode := of_decide_eq_true finite
  exact decide_eq_false (by omega)

theorem isInfinite_of_isFinite (finite : x.isFinite = true) : x.isInfinite = false := by
  have less : x.code < infinityCode := of_decide_eq_true finite
  exact decide_eq_false (by omega)

/-! ## Comparisons with zero -/

theorem rank_zero : zero.rank = 0 := by decide

theorem isNaN_zero : zero.isNaN = false := by decide

theorem zero_less (x : Binary32) : zero.less x = (!x.isNaN && decide (0 < x.rank)) := by
  rw [less, isNaN_zero, rank_zero, Bool.not_false, Bool.true_and]

theorem less_zero (x : Binary32) : x.less zero = (!x.isNaN && decide (x.rank < 0)) := by
  rw [less, isNaN_zero, rank_zero, Bool.not_false, Bool.and_true]

theorem equals_zero_rank (x : Binary32) : x.equals zero = (!x.isNaN && decide (x.rank = 0)) := by
  rw [equals, isNaN_zero, rank_zero, Bool.not_false, Bool.and_true]

/-- The zeros are equal to zero, and nothing else is. -/
theorem equals_zero (x : Binary32) : x.equals zero = x.isZero := by
  rw [equals_zero_rank, isZero, isNaN, rank]
  by_cases isCode : x.code = 0
  · simp [isCode, infinityCode]
  · cases x.isNegative <;> simp [isCode]

/-! ## Exact results -/

/-- A finite number by its sign and its units. -/
structure Exact (x : Binary32) (negative : Bool) (units : Nat) : Prop where
  finite : x.isFinite = true
  sign : x.isNegative = negative
  units : x.units = units

/-- The units of infinity, if it were finite: all numbers are below. -/
def unitsBound : Nat := twoPow 277

theorem units_lt (finite : x.isFinite = true) : x.units < unitsBound := by
  have less : x.code < infinityCode := of_decide_eq_true finite
  have quotient : x.code / twoPow fractionBits < 255 :=
    (Nat.div_lt_iff_lt_mul (twoPow_pos _)).mpr less
  have spacing : twoPow x.spacing ≤ twoPow 253 := by
    rw [twoPow_le_iff, Binary32.spacing]
    omega
  rw [x.units_eq]
  calc x.significand * twoPow x.spacing
      ≤ x.significand * twoPow 253 := Nat.mul_le_mul_left _ spacing
    _ < 2 * twoPow fractionBits * twoPow 253 :=
        Nat.mul_lt_mul_of_pos_right x.significand_lt (twoPow_pos 253)
    _ = unitsBound := by decide +kernel

theorem unitsBound_le_codeValue {code : Nat} (large : infinityCode ≤ code) :
    unitsBound ≤ codeValue fractionBits code := by
  have normal : ¬ code < twoPow fractionBits :=
    Nat.not_lt.mpr (Nat.le_trans (by decide) large)
  have exponent : 254 ≤ code / twoPow fractionBits - 1 := by
    have : 255 ≤ code / twoPow fractionBits := (Nat.le_div_iff_mul_le (twoPow_pos _)).mpr large
    omega
  rw [codeValue, if_neg normal]
  calc unitsBound = twoPow fractionBits * twoPow 254 := by decide +kernel
    _ ≤ _ := Nat.mul_le_mul (Nat.le_add_right _ _) (twoPow_le_iff.mpr exponent)

/-- A number with few significant bits is not rounded. -/
theorem exact_ofRatio {significand shift : Nat} (negative : Bool)
    (small : significand < 2 * twoPow fractionBits)
    (below : significand * twoPow shift < unitsBound) :
    (ofRatio negative (significand * twoPow shift) 1).Exact negative
      (significand * twoPow shift) := by
  obtain ⟨grid, rounded, rounding⟩ :=
    exists_rounding fractionBits (significand * twoPow shift) Nat.one_pos
  -- the grid at this size is no coarser than the number
  have onGrid : twoPow grid ∣ significand * twoPow shift := by
    rcases rounding.coarse with rfl | coarse
    · exact Nat.one_dvd _
    · have fine : twoPow (fractionBits + grid) < twoPow (fractionBits + 1 + shift) := by
        rw [twoPow_add _ shift, twoPow_succ]
        calc twoPow (fractionBits + grid) ≤ significand * twoPow shift := by simpa using coarse
          _ < _ := Nat.mul_lt_mul_of_pos_right small (twoPow_pos shift)
      rw [twoPow_lt_iff] at fine
      exact Dvd.dvd.mul_left (twoPow_dvd (by omega)) _
  have value : codeValue fractionBits (roundRatio fractionBits (significand * twoPow shift) 1) =
      significand * twoPow shift :=
    Nat.le_antisymm (rounding.value_le Nat.one_pos onGrid (by simp))
      (rounding.le_value Nat.one_pos onGrid (by simp))
  have finite : roundRatio fractionBits (significand * twoPow shift) 1 < infinityCode := by
    by_contra large
    have := unitsBound_le_codeValue (Nat.le_of_not_lt large)
    omega
  have isCode : (ofRatio negative (significand * twoPow shift) 1).code = _ :=
    (code_ofCode negative _).trans (Nat.min_eq_left (Nat.le_of_lt finite))
  refine ⟨?_, isNegative_ofCode negative _, ?_⟩
  · rw [isFinite, isCode, decide_eq_true_eq]
    exact finite
  · rw [Binary32.units, isCode]
    exact value

/-- Nothing but zero is rounded to zero. -/
theorem ofRatio_equals_zero (negative : Bool) (n : Nat) :
    (ofRatio negative n 1).equals zero = decide (n = 0) := by
  rw [equals_zero, isZero, ofRatio, code_ofCode, decide_eq_decide]
  obtain ⟨shift, significand, rounding⟩ := exists_rounding fractionBits n Nat.one_pos
  have pos := twoPow_pos fractionBits
  constructor
  · intro isZero
    have code := rounding.code
    have positive : infinityCode ≠ 0 := by decide
    have none : shift * twoPow fractionBits + significand = 0 := by omega
    have noSignificand : significand = 0 := by omega
    have noShift : shift = 0 := by
      rcases Nat.mul_eq_zero.mp (show shift * twoPow fractionBits = 0 by omega) with zero | zero
      · exact zero
      · omega
    have below := rounding.below
    rw [noSignificand, noShift] at below
    have : twoPow 0 = 1 := rfl
    omega
  · rintro rfl
    decide

/-- A difference vanishes just if the numbers are the same. -/
theorem sub_equals_zero (isX : x.isFinite = true) (isY : y.isFinite = true) :
    (x - y).equals zero = decide (x.signedUnits = y.signedUnits) := by
  have isNegated : (-y).isFinite = true := by
    rw [isFinite, code_negate]
    exact isY
  show (add x (-y)).equals zero = _
  rw [add, isNaN_of_isFinite isX, isNaN_of_isFinite isNegated, isInfinite_of_isFinite isX,
    isInfinite_of_isFinite isNegated]
  simp only [Bool.or_self, Bool.false_eq_true, if_false]
  rw [ofRatio_equals_zero, signedUnits_negate, decide_eq_decide]
  omega

/-- The difference to a number of the same sign. -/
theorem Exact.sub_equals_zero {units : Nat} (exact : y.Exact x.isNegative units)
    (finite : x.isFinite = true) : (x - y).equals zero = decide (x.units = units) := by
  rw [Binary32.sub_equals_zero finite exact.finite, signedUnits, signedUnits, exact.sign,
    exact.units, decide_eq_decide]
  cases x.isNegative
  · simp only [Bool.false_eq_true, if_false]
    omega
  · simp only [if_true]
    omega

/-- Only finite numbers have a difference to themselves. -/
theorem sub_self_equals_zero (notFinite : x.isFinite = false) : (x - x).equals zero = false := by
  have large : infinityCode ≤ x.code := Nat.le_of_not_lt (of_decide_eq_false notFinite)
  have noNumber : x - x = nan := by
    show add x (-x) = nan
    by_cases isNaN : x.isNaN = true
    · rw [add, isNaN, Bool.true_or, if_pos rfl]
    · have isCode : x.code = infinityCode := by
        have := of_decide_eq_false (Bool.eq_false_iff.mpr isNaN)
        omega
      have infinite : x.isInfinite = true := decide_eq_true isCode
      have infinite' : (-x).isInfinite = true := decide_eq_true ((code_negate x).trans isCode)
      have isNaN' : (-x).isNaN = false := by
        rw [Binary32.isNaN, code_negate, isCode]
        decide
      rw [add, Bool.eq_false_iff.mpr isNaN, isNaN', infinite, infinite', isNegative_negate]
      cases x.isNegative <;> rfl
  rw [noNumber]
  decide

/-! ## Integers -/

/-- Whether a number is an integer. -/
def isInteger (x : Binary32) : Bool :=
  x.isFinite && decide (x.units % twoPow unitExponent = 0)

/-- A number is the given integer. -/
def IsInteger (x : Binary32) (k : Int) : Prop :=
  x.isFinite = true ∧ x.signedUnits = k * (twoPow unitExponent : Int)

/-- A number with a fraction is small. -/
theorem whole_lt (fraction : x.units % twoPow unitExponent ≠ 0) :
    x.units / twoPow unitExponent < twoPow fractionBits := by
  have spacing : x.spacing < unitExponent := by
    by_contra coarse
    have divides : twoPow unitExponent ∣ x.units := by
      rw [x.units_eq]
      exact Dvd.dvd.mul_left (twoPow_dvd (Nat.le_of_not_lt coarse)) _
    exact fraction (Nat.mod_eq_zero_of_dvd divides)
  have fine : twoPow x.spacing ≤ twoPow 148 := twoPow_le_iff.mpr (Nat.le_of_lt_succ spacing)
  rw [Nat.div_lt_iff_lt_mul (twoPow_pos _), x.units_eq]
  calc x.significand * twoPow x.spacing
      ≤ x.significand * twoPow 148 := Nat.mul_le_mul_left _ fine
    _ < 2 * twoPow fractionBits * twoPow 148 :=
        Nat.mul_lt_mul_of_pos_right x.significand_lt (twoPow_pos 148)
    _ = twoPow fractionBits * twoPow unitExponent := by decide +kernel

theorem exact_ofWhole {whole : Nat} (negative : Bool) (small : whole ≤ twoPow fractionBits) :
    (ofWhole negative whole).Exact negative (whole * twoPow unitExponent) := by
  refine exact_ofRatio negative ?_ ?_
  · have := twoPow_pos fractionBits
    omega
  · calc whole * twoPow unitExponent
        ≤ twoPow fractionBits * twoPow unitExponent := Nat.mul_le_mul_right _ small
      _ < unitsBound := by decide +kernel

/-- An integer is its own integer part. -/
theorem exact_ofWhole_units (negative : Bool) (finite : x.isFinite = true)
    (integral : x.units % twoPow unitExponent = 0) :
    (ofWhole negative (x.units / twoPow unitExponent)).Exact negative x.units := by
  have bound := units_lt finite
  rw [ofWhole, Nat.div_mul_cancel (Nat.dvd_of_mod_eq_zero integral)]
  rw [x.units_eq] at bound ⊢
  exact exact_ofRatio negative x.significand_lt bound

theorem exact_trunc (finite : x.isFinite = true) :
    x.trunc.Exact x.isNegative (x.units / twoPow unitExponent * twoPow unitExponent) := by
  rw [trunc, if_pos finite, wholePart]
  by_cases integral : x.units % twoPow unitExponent = 0
  · rw [Nat.div_mul_cancel (Nat.dvd_of_mod_eq_zero integral)]
    exact exact_ofWhole_units x.isNegative finite integral
  · exact exact_ofWhole x.isNegative (Nat.le_of_lt (whole_lt integral))

/-- The greatest integer below is one further from zero than the integer part if the number is
negative and has a fraction. -/
theorem exact_floor (finite : x.isFinite = true) :
    x.floor.Exact x.isNegative ((x.units / twoPow unitExponent +
      if x.isNegative && decide (x.units % twoPow unitExponent ≠ 0) then 1 else 0) *
        twoPow unitExponent) := by
  rw [floor, if_pos finite, wholePart]
  by_cases integral : x.units % twoPow unitExponent = 0
  · simp only [integral, ne_eq, not_true_eq_false, decide_false, Bool.and_false,
      Bool.false_eq_true, if_false, Nat.add_zero]
    rw [Nat.div_mul_cancel (Nat.dvd_of_mod_eq_zero integral)]
    exact exact_ofWhole_units x.isNegative finite integral
  · have small := whole_lt integral
    refine exact_ofWhole x.isNegative ?_
    split <;> omega

/-- What is left over the integer part vanishes for integers. -/
theorem fract_equals_zero (x : Binary32) : x.fract.equals zero = x.isInteger := by
  rw [fract, isInteger]
  cases finite : x.isFinite with
  | false =>
      rw [trunc, finite]
      exact sub_self_equals_zero finite
  | true =>
      have whole := Nat.div_add_mod' x.units (twoPow unitExponent)
      rw [(exact_trunc finite).sub_equals_zero finite, Bool.true_and, decide_eq_decide]
      omega

/-- What is left over the greatest integer below vanishes for integers. -/
theorem frac_equals_zero (x : Binary32) : x.frac.equals zero = x.isInteger := by
  rw [frac, isInteger]
  cases finite : x.isFinite with
  | false =>
      rw [floor, finite]
      exact sub_self_equals_zero finite
  | true =>
      have whole := Nat.div_add_mod' x.units (twoPow unitExponent)
      have rest := Nat.mod_lt x.units (twoPow_pos unitExponent)
      rw [(exact_floor finite).sub_equals_zero finite, Bool.true_and, decide_eq_decide]
      -- a negative number with a fraction lies strictly between two integers
      split
      · rename_i below
        have fraction := of_decide_eq_true (Bool.and_eq_true_iff.mp below).2
        rw [Nat.succ_mul]
        omega
      · rw [Nat.add_zero]
        omega

/-! ## Parity -/

/-- The remainder of an integer by two is that of its magnitude, with its sign. -/
theorem remainder_two (integer : x.isInteger = true) :
    x % two =
      ofRatio x.isNegative (x.units / twoPow unitExponent % 2 * twoPow unitExponent) 1 := by
  obtain ⟨finite, integral⟩ := Bool.and_eq_true_iff.mp integer
  have isTwo : two.isNaN = false ∧ two.isZero = false ∧ two.isInfinite = false := by decide
  have units : x.units = x.units / twoPow unitExponent * twoPow unitExponent :=
    (Nat.div_mul_cancel (Nat.dvd_of_mod_eq_zero (of_decide_eq_true integral))).symm
  have unitsTwo : two.units = 2 * twoPow unitExponent := by decide +kernel
  show remainder x two = _
  rw [remainder, isNaN_of_isFinite finite, isInfinite_of_isFinite finite, isTwo.1, isTwo.2.1,
    isTwo.2.2, unitsTwo]
  simp only [Bool.or_self, Bool.false_eq_true, if_false]
  rw [← Nat.mul_mod_mul_right, ← units]

/-- An integer is odd just if its remainder by two does not vanish. -/
theorem parity (integer : x.isInteger = true) :
    x.isOdd = decide (x.units / twoPow unitExponent % 2 = 1) ∧
      (x % two).equals zero = !x.isOdd := by
  rw [isOdd, remainder_two integer]
  rcases Nat.mod_two_eq_zero_or_one (x.units / twoPow unitExponent) with even | odd
  · rw [even]
    cases x.isNegative <;> decide +kernel
  · rw [odd]
    cases x.isNegative <;> decide +kernel

namespace IsInteger

variable {k : Int}

theorem units_eq (integer : x.IsInteger k) : x.units = k.natAbs * twoPow unitExponent := by
  have magnitude : x.signedUnits.natAbs = x.units := by
    rw [signedUnits]
    cases x.isNegative
    · rfl
    · exact Int.natAbs_neg _
  rw [← magnitude, integer.2, Int.natAbs_mul]
  rfl

theorem isInteger (integer : x.IsInteger k) : x.isInteger = true := by
  rw [Binary32.isInteger, integer.1, integer.units_eq, Nat.mul_mod_left]
  rfl

/-- The parity of a number that is an integer is the parity of the integer. -/
theorem isOdd_iff (integer : x.IsInteger k) : x.isOdd = true ↔ Odd k := by
  rw [(parity integer.isInteger).1, integer.units_eq, Nat.mul_div_cancel _ (twoPow_pos _),
    decide_eq_true_eq, Int.odd_iff]
  omega

end IsInteger

theorem exists_isInteger (integer : x.isInteger = true) : ∃ k, x.IsInteger k := by
  obtain ⟨finite, integral⟩ := Bool.and_eq_true_iff.mp integer
  have units : x.units / twoPow unitExponent * twoPow unitExponent = x.units :=
    Nat.div_mul_cancel (Nat.dvd_of_mod_eq_zero (of_decide_eq_true integral))
  refine ⟨if x.isNegative then -((x.units / twoPow unitExponent : Nat) : Int)
    else (x.units / twoPow unitExponent : Nat), finite, ?_⟩
  rw [signedUnits]
  cases x.isNegative
  · rw [if_neg Bool.false_ne_true, if_neg Bool.false_ne_true, ← Int.natCast_mul, units]
  · rw [if_pos rfl, if_pos rfl, Int.neg_mul, ← Int.natCast_mul, units]

end ImageFormula.Binary32
