import ImageFormula.Rule.Basic

/-! The rules of formulas, tightest first. -/

namespace ImageFormula.Rule

def power : Rule := ⟨"power", [.value, .power, .value], .any, .operator⟩

/-- A sign stands where no operand is on its left; elsewhere the operator is binary. -/
def sign : Rule := ⟨"sign", [.sum, .value], .noOperand, .sign⟩

def product : Rule := ⟨"product", [.value, .product, .value], .any, .operator⟩

def sum : Rule := ⟨"sum", [.value, .sum, .value], .any, .operator⟩

def brackets : Rule := ⟨"brackets", [.bracketOpen, .value, .bracketClose], .any, .brackets⟩

def intrinsic : Rule := ⟨"intrinsic", [.functionStart, .bracketClose], .any, .call⟩

def unaryCall : Rule := ⟨"unary-call", [.functionStart, .value, .bracketClose], .any, .call⟩

def binaryCall : Rule :=
  ⟨"binary-call", [.functionStart, .value, .separator, .value, .bracketClose], .any, .call⟩

def tertiaryCall : Rule :=
  ⟨"tertiary-call",
    [.functionStart, .value, .separator, .value, .separator, .value, .bracketClose], .any, .call⟩

/-- The standard rules, highest priority first. -/
def standard : List Rule :=
  [power, sign, product, sum, brackets, intrinsic, unaryCall, binaryCall, tertiaryCall]

end ImageFormula.Rule
