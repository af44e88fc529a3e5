import ImageFormula.Expr.Shader

/-! Trees without images, folded to a number. -/

namespace ImageFormula

/-- The operation of an operator on numbers. -/
def Operator.apply : Operator → Binary32 → Binary32 → Binary32
  | pow, a, b => Binary32.power a b
  | mul, a, b => a * b
  | div, a, b => a / b
  | add, a, b => a + b
  | sub, a, b => a - b

namespace Expr

/-- The value of a call. An unknown name, or one without a value, is reported before any fault in
the arguments. -/
def callValue (name : String) (args : List (Except Fault Binary32)) (span : Span) :
    Except Fault Binary32 :=
  match Function.find? name args.length with
  | none => .error (.unknownFunction name args.length span)
  | some function =>
    match function.scalar with
    | none => .error (.notSupported (.noNumericForm name))
    | some scalar =>
      match collect args with
      | .error fault => .error fault
      | .ok values =>
        match scalar.value? values with
        | some value => .ok value
        | none => .error (.notSupported (.noNumericForm name))

/-- The number that a tree stands for. -/
def fold : Expr → Except Fault Binary32
  | number value => .ok value
  | image slot => .error (.notSupported (.imageValue slot))
  | binary lhs op rhs =>
    match lhs.fold, rhs.fold with
    | .error fault, _ | .ok _, .error fault => .error fault
    | .ok left, .ok right => .ok (op.apply left right)
  | intrinsic name span => callValue name [] span
  | unary name arg span => callValue name [arg.fold] span
  | binaryCall name first second span => callValue name [first.fold, second.fold] span
  | tertiary name first second third span =>
    callValue name [first.fold, second.fold, third.fold] span

end Expr

end ImageFormula
