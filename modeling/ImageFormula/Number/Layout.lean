import ImageFormula.Number.Shortest

/-! How the digits of a number are written out.

The three texts of a number (in messages and token lists, as a literal, in JSON) have the shortest
digits that read back and differ in a `Layout`. -/

namespace ImageFormula

/-- Where positional notation ends, and how the two notations look. -/
structure Layout where
  /-- Whether a number whose first digit counts `10 ^ exponent` is written positionally. -/
  positional : Int → Bool
  /-- Whether whole numbers end in `.0`. -/
  pointZero : Bool
  /-- Whether exponents that are not negative carry a plus sign. -/
  plusSign : Bool
  /-- Which of two decimals that are equally short and near is written. -/
  tie : Tie

namespace Layout

/-- Never an exponent, and no point in whole numbers. -/
def plain : Layout := ⟨fun _ => true, false, false, .greater⟩

/-- Positional from `10 ^ -4` to below `10 ^ 16`. -/
def literal : Layout := ⟨fun exponent => -4 ≤ exponent && exponent < 16, true, false, .greater⟩

/-- Positional from `10 ^ -6` to below `10 ^ 13`; exponents always signed; of two decimals the even
one. -/
def json : Layout := ⟨fun exponent => -6 ≤ exponent && exponent ≤ 12, true, true, .even⟩

/-- Digits with the point in its place. -/
def positionalText (layout : Layout) (digits : List Char) (exponent : Int) : List Char :=
  match exponent with
  | .ofNat zeros =>
    digits ++ List.replicate zeros '0' ++ if layout.pointZero then ['.', '0'] else []
  | .negSucc n =>
    let places := n + 1
    if places < digits.length then
      digits.take (digits.length - places) ++ '.' :: digits.drop (digits.length - places)
    else '0' :: '.' :: List.replicate (places - digits.length) '0' ++ digits

/-- Digits with the point after the first one, and an exponent. -/
def scientificText (layout : Layout) (digits : List Char) (exponent : Int) : List Char :=
  let lead := match digits with
    | first :: more => first :: if more.isEmpty then [] else '.' :: more
    | [] => []
  let sign := if exponent < 0 then ['-'] else if layout.plusSign then ['+'] else []
  lead ++ 'e' :: sign ++ Nat.toDigits 10 exponent.natAbs

/-- A decimal in a layout. -/
def decimalText (layout : Layout) (d : Decimal) : List Char :=
  let digits := Nat.toDigits 10 d.coefficient
  let leading := d.exponent + digits.length - 1
  if layout.positional leading then layout.positionalText digits d.exponent
  else layout.scientificText digits leading

/-- A finite number in a layout, with its sign. -/
def numberText (layout : Layout) (x : Binary32) : List Char :=
  let digits := layout.decimalText (x.shortest layout.tie)
  if x.isNegative then '-' :: digits else digits

end Layout

namespace Binary32

/-- The text of a number in messages and listings. -/
def text (x : Binary32) : String :=
  if x.isNaN then "NaN"
  else if x.isInfinite then (if x.isNegative then "-inf" else "inf")
  else String.ofList (Layout.plain.numberText x)

/-- The literal of a finite number; the others have none. -/
def literal? (x : Binary32) : Option String :=
  if x.isFinite then some (String.ofList (Layout.literal.numberText x)) else none

/-- The bits in eight digits of base 16, padded with zeros. -/
def hexDigits (x : Binary32) : List Char :=
  let digits := Nat.toDigits 16 x.bits.toNat
  List.replicate (8 - digits.length) '0' ++ digits

end Binary32

end ImageFormula
