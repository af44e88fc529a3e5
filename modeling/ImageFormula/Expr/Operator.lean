/-! The infix operators of formulas. -/

namespace ImageFormula

inductive Operator where
  | pow
  | mul
  | div
  | add
  | sub
  deriving DecidableEq, Repr

namespace Operator

def ofChar? : Char → Option Operator
  | '^' => some pow
  | '*' => some mul
  | '/' => some div
  | '+' => some add
  | '-' => some sub
  | _ => none

def symbol : Operator → Char
  | pow => '^'
  | mul => '*'
  | div => '/'
  | add => '+'
  | sub => '-'

def name : Operator → String
  | pow => "pow"
  | mul => "mul"
  | div => "div"
  | add => "add"
  | sub => "sub"

/-- The binding tier: 1 binds tightest, 3 loosest. -/
def tier : Operator → Nat
  | pow => 1
  | mul | div => 2
  | add | sub => 3

/-- Whether the operator can also stand as a sign. -/
def isSign : Operator → Bool
  | add | sub => true
  | pow | mul | div => false

end Operator

end ImageFormula
