import ImageFormula.Expr.Basic
import ImageFormula.Number.Layout

/-! Trees written back as formulas, with a pair of brackets around every operation.

The text shows how a formula was grouped, and reads back as a formula of the same grouping. -/

namespace ImageFormula

namespace Binary32

/-- The formula text of a number without its sign. -/
def unsignedFormula (x : Binary32) : String :=
  match x.literal? with
  | some literal => literal
  | none => if x.isNaN then "nan" else "inf"

/-- The formula text of a number: a literal has no sign, so negative numbers are negations. -/
def formula (x : Binary32) : String :=
  if x.isNegative && !x.isNaN then "(-" ++ (-x).unsignedFormula ++ ")" else x.unsignedFormula

end Binary32

namespace Expr

/-- The formula text of a call with its arguments already written. -/
def callFormat (name : String) (args : List String) : String :=
  name ++ "(" ++ String.intercalate ", " args ++ ")"

/-- The tree as a formula. -/
def format : Expr → String
  | number value => value.formula
  | image slot => "I" ++ toString slot
  | binary lhs op rhs =>
    if lhs.isMinusOne && op == .mul then "(-" ++ rhs.format ++ ")"
    else "(" ++ lhs.format ++ " " ++ op.symbol.toString ++ " " ++ rhs.format ++ ")"
  | intrinsic name _ => callFormat name []
  | unary name arg _ => callFormat name [arg.format]
  | binaryCall name first second _ => callFormat name [first.format, second.format]
  | tertiary name first second third _ =>
    callFormat name [first.format, second.format, third.format]

end Expr

end ImageFormula
