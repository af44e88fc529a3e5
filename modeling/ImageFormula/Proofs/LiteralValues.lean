import ImageFormula.Proofs.Literals
import ImageFormula.Proofs.Narrowing

/-!
# What a literal is read back as

The literal of a number is its shortest decimal, with zeros and an exponent as the layout wants. It
is read as this decimal again, up to zeros at its end (`Layout.parse?_decimalText`), and then
rounded twice. The main statement is `Binary32.literal?_readsAs`: all finite numbers without sign
are read back but one, whose literal gives the next number.
-/

namespace ImageFormula

/-! ## Numerals -/

namespace Decimal

/-- The same number with more places after the point. -/
def shifted (d : Decimal) (places : Nat) : Decimal :=
  ⟨d.coefficient * tenPow places, d.exponent - places⟩

theorem shifted_zero (d : Decimal) : d.shifted 0 = d := by
  obtain ⟨coefficient, exponent⟩ := d
  show Decimal.mk (coefficient * 1) (exponent - (0 : Nat)) = _
  rw [Nat.mul_one, Int.natCast_zero, Int.sub_zero]

variable {whole part exponent : List Char} {value : Int}

theorem parse?_point (isWhole : IsDigits whole) (isPart : ∀ c ∈ part, c.isDigit = true)
    (isExponent : IsExponent exponent) (isValue : exponent? exponent = some value) :
    parse? (whole ++ '.' :: (part ++ exponent)) =
      some ⟨Nat.ofDigitChars 10 (whole ++ part) 0, value - part.length⟩ := by
  have nonempty := isWhole.nonempty
  unfold parse?
  rw [IsNumeral.span_digits isWhole.digits (by simp)]
  simp only [IsNumeral.span_digits isPart (IsNumeral.not_isDigit_exponent isExponent), isValue]
  simp [nonempty]

theorem parse?_whole (isWhole : IsDigits whole) (isExponent : IsExponent exponent)
    (isValue : exponent? exponent = some value) :
    parse? (whole ++ exponent) = some ⟨Nat.ofDigitChars 10 whole 0, value⟩ := by
  have nonempty := isWhole.nonempty
  unfold parse?
  rw [IsNumeral.span_digits isWhole.digits (IsNumeral.not_isDigit_exponent isExponent)]
  cases isExponent <;> simp [nonempty, isValue]

/-- Digits without sign are an exponent. -/
theorem exponent?_digits (n : Nat) : exponent? ('e' :: Nat.toDigits 10 n) = some (n : Int) := by
  have isDigits := isDigits_toDigits n
  have value := digits?_toDigits n
  cases digits : Nat.toDigits 10 n with
  | nil => exact absurd digits Nat.toDigits_ne_nil
  | cons c more =>
      rw [digits] at isDigits value
      have isDigit := isDigits.digits c (.head _)
      have notMinus : c ≠ '-' := by
        rintro rfl
        contradiction
      have notPlus : c ≠ '+' := by
        rintro rfl
        contradiction
      simp [exponent?, notMinus, notPlus, value]

/-- An exponent as it is written behind the digits. -/
def exponentText (n : Int) : List Char :=
  'e' :: (if n < 0 then ['-'] else []) ++ Nat.toDigits 10 n.natAbs

theorem exponent?_exponentText (n : Int) : exponent? (exponentText n) = some n := by
  unfold exponentText
  by_cases negative : n < 0
  · have value : -(n.natAbs : Int) = n := by omega
    rw [if_pos negative]
    simp only [List.cons_append, List.nil_append, exponent?, beq_self_eq_true, Bool.true_or,
      if_true, digits?_toDigits]
    show some (-(n.natAbs : Int)) = some n
    rw [value]
  · have value : (n.natAbs : Int) = n := by omega
    rw [if_neg negative]
    show exponent? ('e' :: Nat.toDigits 10 n.natAbs) = some n
    rw [exponent?_digits, value]

theorem isExponent_exponentText (n : Int) : IsExponent (exponentText n) := by
  unfold exponentText
  by_cases negative : n < 0
  · rw [if_pos negative]
    exact .negative (isDigits_toDigits _)
  · rw [if_neg negative]
    exact .positive (isDigits_toDigits _)

end Decimal

namespace Layout

open Decimal

theorem ofDigitChars_zeros (coefficient zeros : Nat) :
    Nat.ofDigitChars 10 (Nat.toDigits 10 coefficient ++ List.replicate zeros '0') 0 =
      coefficient * tenPow zeros := by
  rw [Nat.ofDigitChars_append, Nat.ofDigitChars_ten_toDigits, Nat.ofDigitChars_replicate_zero,
    Nat.mul_comm]
  rfl

section Positional

variable {digits : List Char} {n : Nat}

/-- Digits with a point among them. -/
theorem parse?_pointInside (isDigits : IsDigits digits) (fits : n + 1 < digits.length) :
    parse? (digits.take (digits.length - (n + 1)) ++ '.' :: digits.drop (digits.length - (n + 1))) =
      some ⟨Nat.ofDigitChars 10 digits 0, .negSucc n⟩ := by
  have whole : IsDigits (digits.take (digits.length - (n + 1))) := by
    refine ⟨?_, fun c member => isDigits.digits c (List.mem_of_mem_take member)⟩
    rw [ne_eq, List.take_eq_nil_iff]
    exact not_or.mpr ⟨by omega, isDigits.nonempty⟩
  have isPart : ∀ c ∈ digits.drop (digits.length - (n + 1)), c.isDigit = true :=
    fun c member => isDigits.digits c (List.mem_of_mem_drop member)
  have parsed := parse?_point whole isPart .none rfl
  rw [List.append_nil, List.take_append_drop, List.length_drop] at parsed
  refine parsed.trans ?_
  congr 2
  omega

/-- Digits behind a point, after zeros. -/
theorem parse?_pointBefore (isDigits : IsDigits digits) (fits : ¬ n + 1 < digits.length) :
    parse? ('0' :: '.' :: List.replicate (n + 1 - digits.length) '0' ++ digits) =
      some ⟨Nat.ofDigitChars 10 digits 0, .negSucc n⟩ := by
  have whole : IsDigits (List.replicate 1 '0') := ⟨by simp, fun _ => isDigit_of_mem_replicate⟩
  have isPart : ∀ c ∈ List.replicate (n + 1 - digits.length) '0' ++ digits, c.isDigit = true := by
    intro c member
    rcases List.mem_append.mp member with member | member
    · exact isDigit_of_mem_replicate member
    · exact isDigits.digits c member
  have isCoefficient : Nat.ofDigitChars 10 (List.replicate 1 '0' ++
      (List.replicate (n + 1 - digits.length) '0' ++ digits)) 0 = Nat.ofDigitChars 10 digits 0 := by
    rw [← List.append_assoc, List.replicate_append_replicate, Nat.ofDigitChars_append,
      Nat.ofDigitChars_replicate_zero, Nat.mul_zero]
  have parsed := parse?_point whole isPart .none rfl
  rw [List.append_nil, isCoefficient, List.length_append, List.length_replicate] at parsed
  refine parsed.trans ?_
  congr 2
  omega

end Positional

/-- Digits with zeros behind them, and the point before a last one. -/
theorem parse?_pointBehind (coefficient zeros : Nat) :
    parse? (Nat.toDigits 10 coefficient ++ List.replicate zeros '0' ++ ['.', '0']) =
      some (shifted ⟨coefficient, zeros⟩ (zeros + 1)) := by
  have whole : IsDigits (Nat.toDigits 10 coefficient ++ List.replicate zeros '0') :=
    (isDigits_toDigits coefficient).append fun _ => isDigit_of_mem_replicate
  have isPart : ∀ c ∈ ['0'], c.isDigit = true := by simp
  refine (parse?_point whole isPart .none rfl).trans ?_
  rw [List.append_assoc, ← List.replicate_succ', ofDigitChars_zeros, shifted]
  congr 2
  show (0 : Int) - 1 = (zeros : Int) - (zeros + 1 : Nat)
  omega

theorem parse?_positionalText (coefficient : Nat) (exponent : Int) :
    ∃ places, places ≤ exponent.toNat + 1 ∧
      parse? (literal.positionalText (Nat.toDigits 10 coefficient) exponent) =
        some (shifted ⟨coefficient, exponent⟩ places) := by
  cases exponent with
  | ofNat zeros => exact ⟨zeros + 1, Nat.le_refl _, parse?_pointBehind coefficient zeros⟩
  | negSucc n =>
      have isDigits := isDigits_toDigits coefficient
      refine ⟨0, Nat.zero_le _, ?_⟩
      rw [shifted_zero, positionalText]
      split_ifs with fits
      · rw [parse?_pointInside isDigits fits, Nat.ofDigitChars_ten_toDigits]
      · rw [parse?_pointBefore isDigits fits, Nat.ofDigitChars_ten_toDigits]

theorem parse?_scientificText (coefficient : Nat) (exponent : Int) :
    parse? (literal.scientificText (Nat.toDigits 10 coefficient)
        (exponent + (Nat.toDigits 10 coefficient).length - 1)) =
      some ⟨coefficient, exponent⟩ := by
  have isDigits := isDigits_toDigits coefficient
  generalize isText : Nat.toDigits 10 coefficient = digits at isDigits
  have value : Nat.ofDigitChars 10 digits 0 = coefficient := by
    rw [← isText, Nat.ofDigitChars_ten_toDigits]
  generalize isLeading : exponent + digits.length - 1 = leading
  have isValue := exponent?_exponentText leading
  have isExponent := isExponent_exponentText leading
  cases digits with
  | nil => exact absurd rfl isDigits.nonempty
  | cons first more =>
      have whole : IsDigits [first] := ⟨by simp, by simpa using isDigits.digits first (.head _)⟩
      cases more with
      | nil =>
          have parsed := parse?_whole whole isExponent isValue
          rw [value] at parsed
          refine parsed.trans ?_
          congr 2
          rw [← isLeading]
          simp
      | cons next more =>
          have parsed := parse?_point whole
            (fun c member => isDigits.digits c (.tail _ member)) isExponent isValue
          have text : literal.scientificText (first :: next :: more) leading =
              [first] ++ '.' :: (next :: more ++ exponentText leading) := by
            simp [scientificText, literal, exponentText]
          rw [text, parsed, List.singleton_append, value]
          congr 2
          rw [← isLeading, List.length_cons (a := first)]
          omega

/-- A written decimal is read as the same number. -/
theorem parse?_decimalText (d : Decimal) :
    ∃ places, places ≤ d.exponent.toNat + 1 ∧
      parse? (literal.decimalText d) = some (d.shifted places) := by
  unfold decimalText
  simp only
  split_ifs
  · exact parse?_positionalText d.coefficient d.exponent
  · exact ⟨0, Nat.zero_le _, by rw [parse?_scientificText, shifted_zero]⟩

end Layout

theorem IsNumeral.readsAs_narrowed {text : List Char} (isNumeral : IsNumeral text) {d : Decimal}
    (parsed : Decimal.parse? text = some d) : ReadsAs (String.ofList text) d.narrowed := by
  refine isNumeral.readsAs fun scope span => ?_
  obtain ⟨c, rest, rfl, isDigit⟩ := isNumeral.first
  simp [Scope.readWord, not_isAlpha_of_isDigit isDigit, parsed]

/-! ## Rounding -/

namespace Binary32

open Number Decimal

variable {x : Binary32} {power factor places : Nat}

theorem wideCode_shifted (small : power ≤ leastPower + 38)
    (few : places ≤ ((power : Int) - leastPower).toNat + 1) :
    (shifted ⟨factor, (power : Int) - leastPower⟩ places).wideCode = wideCode power factor := by
  generalize isExponent : (power : Int) - leastPower - places = exponent
  have bounds : -46 ≤ exponent ∧ exponent ≤ 38 := by
    unfold leastPower at *
    omega
  have unbounded : (shifted ⟨factor, (power : Int) - leastPower⟩ places).boundedExponent =
      exponent := by
    show max (-(400 + ((factor * tenPow places).log2 : Int) + 1))
      (min 400 ((power : Int) - leastPower - places)) = exponent
    rw [isExponent]
    omega
  have powers : tenPow places * tenPow exponent.toNat * tenPow leastPower =
      tenPow power * tenPow (-exponent).toNat := by
    rw [← tenPow_add, ← tenPow_add, ← tenPow_add]
    congr 1
    omega
  unfold Decimal.wideCode Decimal.ratio Binary32.wideCode
  rw [unbounded]
  refine roundRatio_congr (tenPow_pos _) (tenPow_pos _) ?_
  have units : twoPow 1074 = twoPow (unitExponent + 2) * wideQuarter := by
    rw [wideQuarter, ← twoPow_add, unitExponent]
  rw [units, gridStep]
  calc factor * tenPow places * tenPow exponent.toNat * (twoPow (unitExponent + 2) * wideQuarter) *
        tenPow leastPower
    _ = factor * (twoPow (unitExponent + 2) * wideQuarter) *
        (tenPow places * tenPow exponent.toNat * tenPow leastPower) := by ring
    _ = factor * (tenPow power * twoPow (unitExponent + 2)) * wideQuarter *
        tenPow (-exponent).toNat := by rw [powers]; ring

theorem bits_eq_code (positive : x.isNegative = false) : x.bits.toNat = x.code := by
  have small : x.bits.toNat < 0x80000000 := by
    have := of_decide_eq_false positive
    omega
  exact (Nat.mod_eq_of_lt small).symm

/-- A finite number without sign is given by its code. -/
theorem ofCode_code (positive : x.isNegative = false) (finite : x.isFinite = true) :
    ofCode false x.code = x := by
  have less : x.code < infinityCode := of_decide_eq_true finite
  obtain ⟨bits⟩ := x
  unfold ofCode
  rw [Nat.min_eq_left (Nat.le_of_lt less), ← bits_eq_code positive]
  simp

theorem spacing_mem (finite : x.isFinite = true) : x.spacing ∈ spacings := by
  have less : x.code < infinityCode := of_decide_eq_true finite
  have quotient : x.code / twoPow fractionBits < 255 :=
    (Nat.div_lt_iff_lt_mul (twoPow_pos _)).mpr less
  refine List.mem_range.mpr ?_
  unfold spacing
  omega

theorem wideCode_lt (stands : x.StandsFor power factor) (member : x.spacing ∈ spacings) :
    wideCode power factor < 0x7FF0000000000000 := by
  obtain ⟨shift, significand, rounding⟩ :=
    exists_rounding 52 (factor * gridStep power * wideQuarter) (tenPow_pos leastPower)
  have low := shift_le stands rounding
  have small := rounding.small
  have spaced := List.mem_range.mp member
  rw [show twoPow 52 = 4503599627370496 from rfl] at small
  rw [wideCode, rounding.code, show twoPow 52 = 4503599627370496 from rfl]
  omega

/-- A decimal that stands for a number is narrowed to this number, with one exception. -/
theorem narrowed_shifted (positive : x.isNegative = false) (finite : x.isFinite = true)
    (other : x.code ≠ closeCode) (stands : x.StandsFor power factor)
    (small : power ≤ leastPower + 38) (few : places ≤ ((power : Int) - leastPower).toNat + 1) :
    (shifted ⟨factor, (power : Int) - leastPower⟩ places).narrowed = x := by
  have member := spacing_mem finite
  have units : twoPow (1074 - unitExponent) = 4 * wideQuarter := by
    rw [wideQuarter, show 1074 - unitExponent = 923 + 1 + 1 from rfl, twoPow_succ, twoPow_succ]
    omega
  have isFinite : (shifted ⟨factor, (power : Int) - leastPower⟩ places).isWideFinite = true := by
    rw [Decimal.isWideFinite, wideCode_shifted small few]
    exact decide_eq_true (wideCode_lt stands member)
  rw [Decimal.narrowed, if_pos isFinite, wideCode_shifted small few, units, ofRatio,
    nearest_of_wide member other stands, ofCode_code positive finite]

/-- The shortest decimal of a finite number without sign is narrowed to this number, and in one case
to the next one. -/
theorem narrowed_shortest (positive : x.isNegative = false) (finite : x.isFinite = true)
    (few : places ≤ (x.shortest .greater).exponent.toNat + 1) :
    ((x.shortest .greater).shifted places).narrowed =
      if x = ⟨0x15AE43FD⟩ then ⟨0x15AE43FE⟩ else x := by
  have isCode := ofCode_code positive finite
  by_cases close : x.code = closeCode
  · have isClose : x = ⟨0x15AE43FD⟩ := by
      rw [← isCode, close]
      rfl
    have isShortest : x.shortest .greater = ⟨7038531, -32⟩ := by
      rw [isClose]
      decide +kernel
    rw [isShortest] at few ⊢
    rw [if_pos isClose]
    -- the exponent is negative, so at most one place is added
    have : places ≤ 1 := few
    rcases (show places = 0 ∨ places = 1 by omega) with rfl | rfl <;> decide +kernel
  · have notClose : x ≠ ⟨0x15AE43FD⟩ := fun same => close (same ▸ rfl)
    rw [if_neg notClose]
    cases zero : x.isZero with
    | true =>
        have isZero : x = ⟨0⟩ := by
          rw [← isCode, of_decide_eq_true zero]
          rfl
        subst isZero
        have : places ≤ 1 := few
        rcases (show places = 0 ∨ places = 1 by omega) with rfl | rfl <;> decide +kernel
    | false =>
        obtain ⟨power, factor, small, isShortest, stands⟩ := exists_shortest zero .greater
        rw [isShortest] at few ⊢
        exact narrowed_shifted positive finite close stands small few

/-- A literal is read as the shortest decimal, narrowed. -/
theorem exists_reading (positive : x.isNegative = false) (finite : x.isFinite = true) :
    ∃ text places, x.literal? = some text ∧ places ≤ (x.shortest .greater).exponent.toNat + 1 ∧
      ReadsAs text ((x.shortest .greater).shifted places).narrowed := by
  obtain ⟨places, few, parsed⟩ := Layout.parse?_decimalText (x.shortest .greater)
  have isNumeral := Layout.isNumeral_decimalText (x.shortest .greater)
  refine ⟨_, places, ?_, few, isNumeral.readsAs_narrowed parsed⟩
  simp only [literal?, finite, if_true, Layout.numberText, positive, Bool.false_eq_true, if_false]
  rfl

/-- The literal of a finite number without sign is a formula of one token, and this token is the
number. The only exception is `7.038531e-26`, where the token is the next number. -/
theorem literal?_readsAs (positive : x.isNegative = false) (finite : x.isFinite = true) :
    ∃ text, x.literal? = some text ∧
      ReadsAs text (if x = ⟨0x15AE43FD⟩ then ⟨0x15AE43FE⟩ else x) := by
  obtain ⟨text, places, isText, few, reads⟩ := exists_reading positive finite
  rw [narrowed_shortest positive finite few] at reads
  exact ⟨text, isText, reads⟩

/-- The least number above zero is read back. -/
theorem literal?_readsAs_least :
    (⟨1⟩ : Binary32).isNegative = false ∧ (⟨1⟩ : Binary32).isFinite = true ∧
      (⟨1⟩ : Binary32).literal? = some "1e-45" ∧ ReadsAs "1e-45" ⟨1⟩ := by
  have isText : (⟨1⟩ : Binary32).literal? = some "1e-45" := by decide +kernel
  refine ⟨by decide, by decide, isText, ?_⟩
  obtain ⟨text, same, reads⟩ := literal?_readsAs (x := ⟨1⟩) (by decide) (by decide)
  rw [isText] at same
  cases same
  exact reads

/-- The decimal `7.038531e-26` stands for `0x15AE43FD`. The wide number that is nearest to it lies
halfway to the next number, which is even. -/
theorem literal?_misread :
    (⟨0x15AE43FD⟩ : Binary32).literal? = some "7.038531e-26" ∧
      ReadsAs "7.038531e-26" ⟨0x15AE43FE⟩ ∧ ¬ ReadsAs "7.038531e-26" ⟨0x15AE43FD⟩ := by
  have isText : (⟨0x15AE43FD⟩ : Binary32).literal? = some "7.038531e-26" := by decide +kernel
  have next : ReadsAs "7.038531e-26" ⟨0x15AE43FE⟩ := by
    obtain ⟨text, places, same, few, reads⟩ :=
      exists_reading (x := ⟨0x15AE43FD⟩) (by decide) (by decide)
    rw [isText] at same
    cases same
    rwa [narrowed_shortest (by decide) (by decide) few] at reads
  refine ⟨isText, next, fun reads => ?_⟩
  have same := (next (.images 0 .empty)).symm.trans (reads (.images 0 .empty))
  simp [Token.ofKind] at same

end Binary32

end ImageFormula
