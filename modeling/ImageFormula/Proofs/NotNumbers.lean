import ImageFormula.Expr.Fold
import ImageFormula.Proofs.Integers

/-!
# NaN in trees

A tree of numbers and operators always has a value. Sums, products and quotients with a NaN are NaN,
and so are most powers. The power function that `^` is made of has two exceptions: the power zero
of anything is 1, and any power of 1 is. So a NaN leaf shows in the value of the tree unless it is
under such a power (`Expr.ShowsNaN`, `Expr.fold_isNaN`).
-/

namespace ImageFormula

open Binary32

/-! ## Operators -/

namespace Binary32

variable {x y : Binary32}

theorem isNaN_nan : nan.isNaN = true := by decide

theorem isNaN_negate (x : Binary32) : (-x).isNaN = x.isNaN := by
  rw [isNaN, isNaN, code_negate]

theorem isZero_of_isNaN (isNaN : x.isNaN = true) : x.isZero = false := by
  have large : infinityCode < x.code := of_decide_eq_true isNaN
  exact decide_eq_false (by omega)

theorem isInteger_of_isNaN (isNaN : x.isNaN = true) : x.isInteger = false := by
  have large : infinityCode < x.code := of_decide_eq_true isNaN
  rw [isInteger, isFinite, decide_eq_false (by omega), Bool.false_and]

theorem isInteger_of_isZero (isZero : x.isZero = true) : x.isInteger = true ∧ x.isOdd = false := by
  have isCode : x.code = 0 := of_decide_eq_true isZero
  have noUnits : x.units = 0 := by
    rw [units, isCode]
    rfl
  have integer : x.isInteger = true := by
    rw [isInteger, isFinite, isCode, noUnits, Nat.zero_mod]
    rfl
  refine ⟨integer, ?_⟩
  rw [(parity integer).1, noUnits, Nat.zero_div]
  rfl

theorem equals_of_isNaN (isNaN : x.isNaN = true) (y : Binary32) : x.equals y = false := by
  rw [equals, isNaN]
  rfl

theorem less_of_isNaN (x : Binary32) (isNaN : y.isNaN = true) : x.less y = false := by
  rw [less, isNaN, Bool.not_true, Bool.and_false, Bool.false_and]

theorem unsigned_of_less (positive : zero.less x = true) :
    (x.isNegative && !x.isNaN) = false := by
  rw [zero_less, Bool.and_eq_true_iff] at positive
  have above : 0 < x.rank := of_decide_eq_true positive.2
  cases negative : x.isNegative with
  | false => rfl
  | true =>
      rw [rank, if_pos negative] at above
      omega

/-- Of a number that is not NaN or negative, the power is that of the magnitude. -/
theorem pow_eq_magnitudePow (unsigned : (x.isNegative && !x.isNaN) = false) (y : Binary32) :
    x.pow y = magnitudePow x y := by
  rw [pow, unsigned, if_neg Bool.false_ne_true]

theorem magnitudePow_isNaN (isNaN : x.isNaN = true ∨ y.isNaN = true) (notZero : y.isZero = false)
    (notOne : x.equals one = false) : magnitudePow x y = nan := by
  have either : (x.isNaN || y.isNaN) = true := by simpa using isNaN
  rw [magnitudePow, notZero, notOne, either]
  rfl

/-- A NaN base has no power but the power zero. -/
theorem power_isNaN_left (isNaN : x.isNaN = true) (notZero : y.isZero = false) :
    (power x y).isNaN = true := by
  have isNaN' : (-x).isNaN = true := (isNaN_negate x).trans isNaN
  have magnitude : pow (-x) y = nan := by
    rw [pow_eq_magnitudePow (by simp [isNaN'])]
    exact magnitudePow_isNaN (.inl isNaN') notZero (equals_of_isNaN isNaN' one)
  rw [power, powerBy, equals_of_isNaN isNaN, less_of_isNaN zero isNaN, magnitude]
  simp only [Bool.false_eq_true, if_false]
  split
  · exact isNaN_nan
  · split
    · exact (isNaN_negate nan).trans isNaN_nan
    · exact isNaN_nan

/-- A NaN exponent has no power but those of zero and one. -/
theorem power_isNaN_right (isNaN : y.isNaN = true) (notZero : x.isZero = false)
    (notOne : x.equals one = false) : (power x y).isNaN = true := by
  rw [power, powerBy, equals_zero, notZero, fract_equals_zero, isInteger_of_isNaN isNaN]
  simp only [Bool.false_eq_true, if_false, Bool.not_false, if_true]
  split
  · rename_i positive
    rw [pow_eq_magnitudePow (unsigned_of_less positive),
      magnitudePow_isNaN (.inr isNaN) (isZero_of_isNaN isNaN) notOne]
    exact isNaN_nan
  · exact isNaN_nan

/-- The power zero of NaN is 1. -/
theorem power_zero_of_isNaN (isNaN : x.isNaN = true) (isZero : y.isZero = true) :
    power x y = one := by
  obtain ⟨integer, even⟩ := isInteger_of_isZero isZero
  have isNaN' : (-x).isNaN = true := (isNaN_negate x).trans isNaN
  have magnitude : pow (-x) y = one := by
    rw [pow_eq_magnitudePow (by simp [isNaN']), magnitudePow, isZero, Bool.true_or, if_pos rfl]
  rw [power, powerBy, equals_of_isNaN isNaN, less_of_isNaN zero isNaN, fract_equals_zero, integer,
    even, magnitude]
  simp only [Bool.false_eq_true, if_false, Bool.not_true]

/-- Every power of 1 is 1, also with a NaN exponent. -/
theorem power_of_equals_one (isOne : x.equals one = true) (y : Binary32) : power x y = one := by
  have rank_one : one.rank = 0x3F800000 := by decide
  have isRank : x.isNaN = false ∧ x.rank = 0x3F800000 := by
    simp only [equals, Bool.and_eq_true, Bool.not_eq_true', decide_eq_true_eq, rank_one] at isOne
    exact ⟨isOne.1.1, isOne.2⟩
  have notZero : x.equals zero = false := by
    rw [equals_zero_rank, decide_eq_false (by omega), Bool.and_false]
  have positive : zero.less x = true := by
    rw [zero_less, isRank.1, decide_eq_true (by omega)]
    rfl
  rw [power, powerBy, notZero, positive, if_neg Bool.false_ne_true, if_pos rfl,
    pow_eq_magnitudePow (unsigned_of_less positive), magnitudePow, isOne, Bool.or_true, if_pos rfl]

end Binary32

namespace Operator

/-- The right operands with which a NaN on the left does not make the result NaN: the exponent
zero. -/
def hidesLeft (op : Operator) (right : Binary32) : Bool := op == .pow && right.isZero

/-- The left operands with which a NaN on the right need not make the result NaN: the bases zero and
one. -/
def hidesRight (op : Operator) (left : Binary32) : Bool :=
  op == .pow && (left.isZero || left.equals one)

variable {op : Operator} {left right : Binary32}

/-- All operators but `^` make NaN of NaN. -/
theorem apply_isNaN (noPower : op ≠ .pow) (isNaN : left.isNaN = true ∨ right.isNaN = true) :
    (op.apply left right).isNaN = true := by
  have either : (left.isNaN || right.isNaN) = true := by simpa using isNaN
  cases op with
  | pow => contradiction
  | mul =>
      show (Binary32.mul left right).isNaN = true
      rw [Binary32.mul, if_pos either]
      exact isNaN_nan
  | div =>
      show (Binary32.div left right).isNaN = true
      rw [Binary32.div, if_pos either]
      exact isNaN_nan
  | add =>
      show (Binary32.add left right).isNaN = true
      rw [Binary32.add, if_pos either]
      exact isNaN_nan
  | sub =>
      show (Binary32.add left (-right)).isNaN = true
      rw [Binary32.add, isNaN_negate, if_pos either]
      exact isNaN_nan

theorem apply_isNaN_left (isNaN : left.isNaN = true) (visible : op.hidesLeft right = false) :
    (op.apply left right).isNaN = true := by
  by_cases isPower : op = .pow
  · subst isPower
    exact power_isNaN_left isNaN visible
  · exact apply_isNaN isPower (.inl isNaN)

theorem apply_isNaN_right (isNaN : right.isNaN = true) (visible : op.hidesRight left = false) :
    (op.apply left right).isNaN = true := by
  by_cases isPower : op = .pow
  · subst isPower
    obtain ⟨notZero, notOne⟩ := Bool.or_eq_false_iff.mp visible
    exact power_isNaN_right isNaN notZero notOne
  · exact apply_isNaN isPower (.inr isNaN)

end Operator

/-! ## Trees -/

namespace Expr

/-- Whether a tree is made of numbers and operators. -/
def isArithmetic : Expr → Bool
  | number _ => true
  | binary lhs _ rhs => lhs.isArithmetic && rhs.isArithmetic
  | image _ | intrinsic _ _ | unary _ _ _ | binaryCall _ _ _ _ | tertiary _ _ _ _ _ => false

/-- A tree has a NaN leaf that no power on the way up from it hides. -/
inductive ShowsNaN : Expr → Prop
  | leaf {value : Binary32} (isNaN : value.isNaN = true) : ShowsNaN (number value)
  | left {lhs rhs : Expr} {op : Operator} {value : Binary32} (shows : ShowsNaN lhs)
      (isValue : rhs.fold = .ok value) (visible : op.hidesLeft value = false) :
      ShowsNaN (binary lhs op rhs)
  | right {lhs rhs : Expr} {op : Operator} {value : Binary32} (shows : ShowsNaN rhs)
      (isValue : lhs.fold = .ok value) (visible : op.hidesRight value = false) :
      ShowsNaN (binary lhs op rhs)

theorem fold_binary_eq_ok {lhs rhs : Expr} {op : Operator} {value : Binary32} :
    (binary lhs op rhs).fold = .ok value ↔ ∃ left right, lhs.fold = .ok left ∧
      rhs.fold = .ok right ∧ value = op.apply left right := by
  rw [fold]
  cases lhs.fold <;> cases rhs.fold <;> simp [eq_comm]

/-- Numbers and operators have no fault. -/
theorem exists_fold {e : Expr} (arithmetic : e.isArithmetic = true) :
    ∃ value, e.fold = .ok value := by
  induction e with
  | number value => exact ⟨value, rfl⟩
  | binary lhs op rhs ihl ihr =>
      obtain ⟨isLeft, isRight⟩ := Bool.and_eq_true_iff.mp arithmetic
      obtain ⟨left, isLeft⟩ := ihl isLeft
      obtain ⟨right, isRight⟩ := ihr isRight
      exact ⟨_, fold_binary_eq_ok.mpr ⟨left, right, isLeft, isRight, rfl⟩⟩
  | image | intrinsic | unary | binaryCall | tertiary => contradiction

/-- A NaN leaf that is not hidden makes the value NaN. -/
theorem ShowsNaN.isNaN {e : Expr} {value : Binary32} (shows : e.ShowsNaN)
    (isValue : e.fold = .ok value) : value.isNaN = true := by
  induction shows generalizing value with
  | leaf isNaN =>
      obtain rfl := Except.ok.inj isValue
      exact isNaN
  | left _ isRight visible ih =>
      obtain ⟨left, right, isLeft, isRight', rfl⟩ := fold_binary_eq_ok.mp isValue
      obtain rfl := Except.ok.inj (isRight.symm.trans isRight')
      exact Operator.apply_isNaN_left (ih isLeft) visible
  | right _ isLeft visible ih =>
      obtain ⟨left, right, isLeft', isRight, rfl⟩ := fold_binary_eq_ok.mp isValue
      obtain rfl := Except.ok.inj (isLeft.symm.trans isLeft')
      exact Operator.apply_isNaN_right (ih isRight) visible

/-- A tree of numbers and operators has a value. It is NaN if a leaf is, and no power on the way up
from this leaf has the exponent zero over it, or the base zero or one beside it. With the exponent
zero, or the base one, a NaN operand makes the power 1. -/
theorem fold_isNaN (e : Expr) (arithmetic : e.isArithmetic = true) :
    ∃ value, e.fold = .ok value ∧ (e.ShowsNaN → value.isNaN = true) ∧
      ∀ lhs rhs left right, e = binary lhs .pow rhs → lhs.fold = .ok left → rhs.fold = .ok right →
        left.isNaN = true ∧ right.isZero = true ∨ left.equals one = true ∧ right.isNaN = true →
        value = one := by
  obtain ⟨value, isValue⟩ := exists_fold arithmetic
  refine ⟨value, isValue, fun shows => shows.isNaN isValue, ?_⟩
  rintro lhs rhs left right rfl isLeft isRight hidden
  obtain ⟨left', right', isLeft', isRight', rfl⟩ := fold_binary_eq_ok.mp isValue
  obtain rfl := Except.ok.inj (isLeft.symm.trans isLeft')
  obtain rfl := Except.ok.inj (isRight.symm.trans isRight')
  rcases hidden with ⟨isNaN, isZero⟩ | ⟨isOne, -⟩
  · exact power_zero_of_isNaN isNaN isZero
  · exact power_of_equals_one isOne right

/-- In `1 + (2 - nan) ^ 3` the NaN is in the base of a power and shows; in `nan ^ -0` it does not
show. -/
theorem fold_isNaN_base :
    let shown := binary (number one) .add
      (binary (binary (number two) .sub (number nan)) .pow (number ⟨0x40400000⟩))
    let hidden := binary (number nan) .pow (number ⟨0x80000000⟩)
    shown.isArithmetic = true ∧ shown.ShowsNaN ∧
      (∃ value, shown.fold = .ok value ∧ value.isNaN = true) ∧
      hidden.isArithmetic = true ∧ hidden.fold = .ok one := by
  intro shown hidden
  have shows : shown.ShowsNaN :=
    .right (.left (.right (.leaf isNaN_nan) rfl rfl) rfl (by decide)) rfl rfl
  obtain ⟨value, isValue, isNaN, -⟩ := fold_isNaN shown rfl
  obtain ⟨value', isValue', -, isOne⟩ := fold_isNaN hidden rfl
  have isOne := isOne _ _ _ _ rfl rfl rfl (.inl ⟨isNaN_nan, by decide⟩)
  exact ⟨rfl, shows, ⟨value, isValue, isNaN shows⟩, rfl, isOne ▸ isValue'⟩

/-- The NaN of `1 ^ nan` does not show. -/
theorem fold_one_pow_nan :
    let e := binary (number one) .pow (number nan)
    e.isArithmetic = true ∧ nan.isNaN = true ∧ e.fold = .ok one ∧ one.isNaN = false := by
  decide +kernel

end Expr

end ImageFormula
