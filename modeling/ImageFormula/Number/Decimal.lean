import ImageFormula.Number.Arithmetic
import ImageFormula.Text

/-! Decimal numbers: how they are read from text, and the binary32 numbers nearest to them.

The literals of a formula are rounded twice, to binary64 and from there to binary32
(`Decimal.narrowed`); the sizes on the command line are rounded once (`Decimal.nearest`). -/

namespace ImageFormula

/-- The number `coefficient * 10 ^ exponent`. -/
structure Decimal where
  coefficient : Nat
  exponent : Int
  deriving DecidableEq, Repr

namespace Decimal

/-! ## Reading -/

/-- A number from its digits alone; at least one is needed. -/
def digits? (text : List Char) : Option Nat :=
  if !text.isEmpty && text.all Char.isDigit then some (Nat.ofDigitChars 10 text 0) else none

/-- An exponent with its mark, or nothing at all. -/
def exponent? : List Char → Option Int
  | [] => some 0
  | mark :: text =>
    if mark == 'e' || mark == 'E' then
      match text with
      | '-' :: more => (digits? more).map fun n => -(n : Int)
      | '+' :: more => (digits? more).map Int.ofNat
      | _ => (digits? text).map Int.ofNat
    else none

/-- A literal without sign: digits, a point and digits, an exponent. Either group of digits may be
missing, but not both; the point and the exponent may be missing. -/
def parse? (text : List Char) : Option Decimal :=
  let (whole, rest) := text.span Char.isDigit
  let (part, rest) := match rest with
    | '.' :: more => more.span Char.isDigit
    | _ => ([], rest)
  if whole.isEmpty && part.isEmpty then none
  else (exponent? rest).map fun exponent =>
    ⟨Nat.ofDigitChars 10 (whole ++ part) 0, exponent - part.length⟩

/-! ## Rounding -/

/-- Exponents outside this range give zero or infinity whatever they are, so they are cut to it. -/
def boundedExponent (d : Decimal) : Int :=
  max (-(400 + d.coefficient.log2 + 1)) (min 400 d.exponent)

/-- The number as a ratio, counted in units of `2 ^ -unit`. -/
def ratio (d : Decimal) (unit : Nat) : Nat × Nat :=
  (d.coefficient * tenPow d.boundedExponent.toNat * twoPow unit, tenPow (-d.boundedExponent).toNat)

/-- The nearest binary32 number. -/
def nearest (d : Decimal) (negative : Bool) : Binary32 :=
  let (num, den) := d.ratio Binary32.unitExponent
  Binary32.ofRatio negative num den

/-- The code of the nearest binary64 number, in the sense of `roundRatio` with 52 stored bits and
unit `2 ^ -1074`. -/
def wideCode (d : Decimal) : Nat :=
  let (num, den) := d.ratio 1074
  Number.roundRatio 52 num den

/-- Whether the nearest binary64 number is finite. -/
def isWideFinite (d : Decimal) : Bool := d.wideCode < 0x7FF0000000000000

/-- The binary32 number nearest to the nearest binary64 number. -/
def narrowed (d : Decimal) : Binary32 :=
  if d.isWideFinite then
    Binary32.ofRatio false (Number.codeValue 52 d.wideCode) (twoPow (1074 - Binary32.unitExponent))
  else Binary32.infinity

end Decimal

namespace Binary32

/-- A number with an optional sign: a literal, or `inf`, `infinity` or `nan` in any case. -/
def parse? (text : String) : Option Binary32 :=
  let (negative, rest) := match text.toList with
    | '-' :: more => (true, more)
    | '+' :: more => (false, more)
    | more => (false, more)
  match Text.lower (String.ofList rest) with
  | "inf" | "infinity" => some (signedInfinity negative)
  | "nan" => some nan
  | _ => (Decimal.parse? rest).map fun d => d.nearest negative

end Binary32

end ImageFormula
