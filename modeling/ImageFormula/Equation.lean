import ImageFormula.Expr.Fold
import ImageFormula.Expr.Format
import ImageFormula.Rule.Engine
import ImageFormula.Token.Reader

/-! Image formulas: from text to a tree, the limits on both, and the renaming of an image in the
text. -/

namespace ImageFormula

/-- How many image slots a formula may refer to, and how deep its tree may be. -/
structure Limits where
  slots : Nat
  depth : Nat
  deriving DecidableEq, Repr

namespace Limits

/-- The depth that is allowed where nothing else is said. -/
def defaultDepth : Nat := 256

def default : Limits := ⟨16, defaultDepth⟩

/-- The scope of image formulas within the limits. -/
def scope (limits : Limits) : Scope := .images limits.slots .empty

/-- The engine of image formulas within the limits. -/
def engine (limits : Limits) : Engine := .standard limits.depth

end Limits

/-- A formula that came down to one tree, with the slots that it refers to. -/
structure Equation where
  root : Expr
  usage : Usage
  deriving DecidableEq, Repr

/-- The equation of an image formula. The names of functions are not checked; see
`Equation.validate`. -/
def Limits.compile (limits : Limits) (text : String) : Except Fault Equation :=
  match limits.scope.tokens text with
  | (.error fault, _) => .error fault
  | (.ok tokens, scope) =>
    match limits.engine.run tokens with
    | .error fault => .error fault
    | .ok root => .ok ⟨root, scope.usage⟩

namespace Equation

def shader (equation : Equation) : Except Fault String := equation.root.shader

/-- Succeeds if every function of the formula exists. -/
def validate (equation : Equation) : Except Fault Unit := equation.shader.map fun _ => ()

def fold (equation : Equation) : Except Fault Binary32 := equation.root.fold

def format (equation : Equation) : String := equation.root.format

def isValidFor (equation : Equation) (count : Nat) : Bool := equation.usage.isValidFor count

end Equation

/-! ## Renaming -/

/-- The characters of a text with the image tokens of slot `old` written as `I<new>`. The text
starts at `position`; the tokens are those of the text, in order. -/
def renameFrom (old new : Nat) (position : Nat) (text : List Char) : List Token → List Char
  | [] => text
  | token :: more =>
    if token.kind = .value (.image old) then
      text.take (token.span.start - position) ++ 'I' :: Nat.toDigits 10 new ++
        renameFrom old new token.span.stop (text.drop (token.span.stop - position)) more
    else renameFrom old new position text more

/-- The greatest bound on slots that image names can have. -/
def unboundedSlots : Nat := 0xFFFFFFFF

/-- The formula with every reference to image `old` turned into one to image `new`, and all other
text as it is. Slots may be as large as names allow. -/
def renameImage (text : String) (old new : Nat) : Except Fault String :=
  match (Scope.images unboundedSlots .empty).tokens text with
  | (.error fault, _) => .error fault
  | (.ok tokens, _) => .ok (String.ofList (renameFrom old new 0 text.toList tokens))

end ImageFormula
