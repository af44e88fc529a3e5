import ImageFormula.Expr.Basic
import ImageFormula.Fault
import ImageFormula.Function.Table

/-! Trees written as shader expressions.

The result is one expression of four components. It relies on the accessors and helpers of
`Prelude`. Names of functions are looked up here and nowhere before, so that a tree can be well
formed and still have no shader text. -/

namespace ImageFormula.Expr

/-- The values of a list of results, or the first fault. -/
def collect {α : Type} : List (Except Fault α) → Except Fault (List α)
  | [] => .ok []
  | .error fault :: _ => .error fault
  | .ok first :: more =>
    match collect more with
    | .ok rest => .ok (first :: rest)
    | .error fault => .error fault

/-- The shader text of an operation. -/
def operationShader (op : Operator) (lhs rhs : String) : String :=
  match op with
  | .pow => "powEx(" ++ lhs ++ "," ++ rhs ++ ")"
  | .mul | .div | .add | .sub => "(" ++ lhs ++ op.symbol.toString ++ rhs ++ ")"

/-- The shader text of a call. An unknown name is reported before any fault in the arguments. -/
def callShader (name : String) (args : List (Except Fault String)) (span : Span) :
    Except Fault String :=
  match Function.find? name args.length with
  | none => .error (.unknownFunction name args.length span)
  | some function =>
    match collect args with
    | .error fault => .error fault
    | .ok texts =>
      match function.shape.render? texts with
      | some text => .ok text
      | none => .error (.unknownFunction name args.length span)

/-- The tree as a shader expression. -/
def shader : Expr → Except Fault String
  | number value => .ok value.shader
  | image slot => .ok ("GetTexture" ++ toString slot ++ "(coord)")
  | binary lhs op rhs =>
    match lhs.shader, rhs.shader with
    | .error fault, _ | .ok _, .error fault => .error fault
    | .ok left, .ok right => .ok (operationShader op left right)
  | intrinsic name span => callShader name [] span
  | unary name arg span => callShader name [arg.shader] span
  | binaryCall name first second span => callShader name [first.shader, second.shader] span
  | tertiary name first second third span =>
    callShader name [first.shader, second.shader, third.shader] span

end ImageFormula.Expr
