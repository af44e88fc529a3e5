import ImageFormula.Number.Rounding

/-! Binary32 numbers, kept as their 32 bits, and how they compare.

The low 31 bits are a code in the sense of `roundRatio` with 23 stored bits and unit `2 ^ -149`;
the top bit is the sign. Codes above `infinityCode` are not numbers; their bits are kept. -/

namespace ImageFormula

/-- An IEEE 754 binary32 number, as its bit pattern. -/
structure Binary32 where
  bits : UInt32
  deriving DecidableEq, Repr, Inhabited

namespace Binary32

/-- Stored significand bits. -/
def fractionBits : Nat := 23

/-- The value 1 is `2 ^ unitExponent` units. -/
def unitExponent : Nat := 149

/-- The code of infinity: all codes above it are not numbers. -/
def infinityCode : Nat := 0x7F800000

/-- The bits without the sign. -/
def code (x : Binary32) : Nat := x.bits.toNat % 0x80000000

/-- Whether the sign bit is set. -/
def isNegative (x : Binary32) : Bool := decide (0x80000000 ≤ x.bits.toNat)

def isNaN (x : Binary32) : Bool := decide (infinityCode < x.code)

def isInfinite (x : Binary32) : Bool := decide (x.code = infinityCode)

def isFinite (x : Binary32) : Bool := decide (x.code < infinityCode)

def isZero (x : Binary32) : Bool := decide (x.code = 0)

/-- The magnitude of a finite number, in units of `2 ^ -149`. -/
def units (x : Binary32) : Nat := Number.codeValue fractionBits x.code

/-- A finite number with its sign, in units of `2 ^ -149`. -/
def signedUnits (x : Binary32) : Int :=
  if x.isNegative then -(x.units : Int) else x.units

/-- The number of a sign and a code; codes past infinity are infinity. -/
def ofCode (negative : Bool) (code : Nat) : Binary32 :=
  ⟨UInt32.ofNat (min code infinityCode + if negative then 0x80000000 else 0)⟩

/-- The number nearest to `num / den` units, with the given sign. -/
def ofRatio (negative : Bool) (num den : Nat) : Binary32 :=
  ofCode negative (Number.roundRatio fractionBits num den)

/-! ## Particular numbers -/

def zero : Binary32 := ⟨0⟩
def one : Binary32 := ⟨0x3F800000⟩
def two : Binary32 := ⟨0x40000000⟩
def minusOne : Binary32 := ⟨0xBF800000⟩
def infinity : Binary32 := ⟨0x7F800000⟩
def nan : Binary32 := ⟨0x7FC00000⟩
def pi : Binary32 := ⟨0x40490FDB⟩
def euler : Binary32 := ⟨0x402DF854⟩

/-- The greatest finite number. -/
def greatest : Binary32 := ⟨0x7F7FFFFF⟩

/-- The smallest positive number. -/
def smallest : Binary32 := ⟨1⟩

/-- The binary32 number nearest to π / 180. -/
def degree : Binary32 := ⟨0x3C8EFA35⟩

def signedZero (negative : Bool) : Binary32 := ofCode negative 0

def signedInfinity (negative : Bool) : Binary32 := ofCode negative infinityCode

/-! ## Comparison

No comparison holds with a number that is not one, and the two zeros are equal. -/

/-- Numbers other than NaN are ordered like their ranks. -/
def rank (x : Binary32) : Int :=
  if x.isNegative then -(x.code : Int) else x.code

def equals (x y : Binary32) : Bool :=
  !x.isNaN && !y.isNaN && decide (x.rank = y.rank)

def less (x y : Binary32) : Bool :=
  !x.isNaN && !y.isNaN && decide (x.rank < y.rank)

def lessEq (x y : Binary32) : Bool :=
  !x.isNaN && !y.isNaN && decide (x.rank ≤ y.rank)

/-- The lesser operand; the other one if one operand is NaN. -/
def minimum (x y : Binary32) : Binary32 :=
  if x.isNaN then y else if y.isNaN then x else if y.less x then y else x

/-- The greater operand; the other one if one operand is NaN. -/
def maximum (x y : Binary32) : Binary32 :=
  if x.isNaN then y else if y.isNaN then x else if x.less y then y else x

/-- One if the condition holds, zero otherwise. -/
def flag (condition : Bool) : Binary32 := if condition then one else zero

end Binary32

end ImageFormula
