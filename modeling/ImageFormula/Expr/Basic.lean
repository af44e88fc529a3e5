import ImageFormula.Expr.Operator
import ImageFormula.Number.Arithmetic
import ImageFormula.Text
import ImageFormula.Usage

/-! Expression trees. -/

namespace ImageFormula

/-- A formula as a tree. Calls keep the name in lower case and the place of the name. -/
inductive Expr where
  | number (value : Binary32)
  | image (slot : Nat)
  | binary (lhs : Expr) (op : Operator) (rhs : Expr)
  | intrinsic (name : String) (span : Span)
  | unary (name : String) (arg : Expr) (span : Span)
  | binaryCall (name : String) (first second : Expr) (span : Span)
  | tertiary (name : String) (first second third : Expr) (span : Span)
  deriving DecidableEq, Repr, Inhabited

namespace Expr

/-- The tree of `-x`: minus one times `x`. -/
def negate (x : Expr) : Expr := binary (number Binary32.minusOne) .mul x

def isMinusOne : Expr → Bool
  | number value => value.equals Binary32.minusOne
  | _ => false

/-- The call of a name with up to three arguments; no tree has more. -/
def call? (name : String) (span : Span) : List Expr → Option Expr
  | [] => some (intrinsic name span)
  | [arg] => some (unary name arg span)
  | [first, second] => some (binaryCall name first second span)
  | [first, second, third] => some (tertiary name first second third span)
  | _ => none

/-- Name, arguments and place of a call. -/
def callParts? : Expr → Option (String × List Expr × Span)
  | intrinsic name span => some (name, [], span)
  | unary name arg span => some (name, [arg], span)
  | binaryCall name first second span => some (name, [first, second], span)
  | tertiary name first second third span => some (name, [first, second, third], span)
  | number _ | image _ | binary _ _ _ => none

/-- The direct parts, left to right. -/
def children : Expr → List Expr
  | number _ | image _ | intrinsic _ _ => []
  | binary lhs _ rhs => [lhs, rhs]
  | unary _ arg _ => [arg]
  | binaryCall _ first second _ => [first, second]
  | tertiary _ first second third _ => [first, second, third]

/-- The slots of the image leaves, left to right. -/
def images : Expr → List Nat
  | number _ | intrinsic _ _ => []
  | image slot => [slot]
  | binary lhs _ rhs => lhs.images ++ rhs.images
  | unary _ arg _ => arg.images
  | binaryCall _ first second _ => first.images ++ second.images
  | tertiary _ first second third _ => first.images ++ second.images ++ third.images

/-- The set of the slots of the image leaves. -/
def slots (e : Expr) : SlotSet := SlotSet.ofList e.images

/-- The number of nodes. -/
def nodeCount : Expr → Nat
  | number _ | image _ | intrinsic _ _ => 1
  | binary lhs _ rhs => 1 + lhs.nodeCount + rhs.nodeCount
  | unary _ arg _ => 1 + arg.nodeCount
  | binaryCall _ first second _ => 1 + first.nodeCount + second.nodeCount
  | tertiary _ first second third _ =>
    1 + first.nodeCount + second.nodeCount + third.nodeCount

end Expr

end ImageFormula
