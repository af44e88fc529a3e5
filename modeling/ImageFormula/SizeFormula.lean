import ImageFormula.Equation

/-! Size formulas: numbers that depend on the width, height and depth of an image. -/

namespace ImageFormula

/-- A size formula that is known to have a value. -/
structure SizeFormula where
  source : String
  deriving DecidableEq, Repr

namespace SizeFormula

/-- The value of a text at given sizes. -/
def valueOf (text : String) (sizes : Sizes) : Except Fault Binary32 :=
  match (Scope.sizes sizes).tokens text with
  | (.error fault, _) => .error fault
  | (.ok tokens, _) =>
    match (Engine.standard Limits.defaultDepth).run tokens with
    | .error fault => .error fault
    | .ok root => root.fold

/-- The size formula of a text that has a value where all sizes are zero. -/
def parse (text : String) : Except Fault SizeFormula :=
  (valueOf text .zero).map fun _ => ⟨text⟩

def evaluate (formula : SizeFormula) (sizes : Sizes) : Except Fault Binary32 :=
  valueOf formula.source sizes

end SizeFormula

end ImageFormula
