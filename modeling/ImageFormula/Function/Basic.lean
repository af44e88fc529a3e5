import ImageFormula.Number.Elementary
import ImageFormula.Number.Layout

/-! Built-in functions: how a call is written in the shader, and what it is worth as a number. -/

namespace ImageFormula

/-- A number in the shader: its literal, or its bits where it has none. -/
def Binary32.shaderScalar (x : Binary32) : String :=
  match x.literal? with
  | some literal => literal
  | none => "asfloat(0x" ++ String.ofList (x.hexDigits.map Char.toUpper) ++ "u)"

/-- The shader text of a number, which has the number in every component. -/
def Binary32.shader (x : Binary32) : String := "f4(" ++ x.shaderScalar ++ ")"

/-- The shader text of a call, given the texts of its arguments. -/
inductive Shape where
  /-- `target(a,b,…)` -/
  | call (target : String)
  /-- `(a).channels` -/
  | swizzle (channels : String)
  /-- `f4(target((a).xyz,…))`: a function of colours with a number as its result. -/
  | scalarOfColours (target : String)
  /-- `float4(target((a).xyz,…),1.0)`: a function of colours with a colour as its result. -/
  | colourOfColours (target : String)
  /-- `f4(target((a).xyz)?1.0:0.0)`: a test of a colour. -/
  | testOfColour (target : String)
  /-- `powEx(max(a,f4(0.0)),b)` -/
  | clampedPower
  /-- `float4((a).r,(b).r,(c).r,1.0)` -/
  | composeRgb
  /-- `lerp(a,b,(t).r)` -/
  | lerpScalar
  /-- The text itself. -/
  | fixed (text : String)
  deriving DecidableEq, Repr

namespace Shape

/-- The colour part of an argument. -/
def colour (arg : String) : String := "(" ++ arg ++ ").xyz"

/-- The first channel of an argument. -/
def channel (arg : String) : String := "(" ++ arg ++ ").r"

/-- The shader text of a call; none if the shape does not take that many arguments. -/
def render? : Shape → List String → Option String
  | call target, args => some (target ++ "(" ++ String.intercalate "," args ++ ")")
  | swizzle channels, [a] => some ("(" ++ a ++ ")." ++ channels)
  | scalarOfColours target, args =>
    some ("f4(" ++ target ++ "(" ++ String.intercalate "," (args.map colour) ++ "))")
  | colourOfColours target, args =>
    some ("float4(" ++ target ++ "(" ++ String.intercalate "," (args.map colour) ++ "),1.0)")
  | testOfColour target, [a] => some ("f4(" ++ target ++ "(" ++ colour a ++ ")?1.0:0.0)")
  | clampedPower, [base, exponent] =>
    some ("powEx(max(" ++ base ++ "," ++ Binary32.zero.shader ++ ")," ++ exponent ++ ")")
  | composeRgb, [r, g, b] =>
    some ("float4(" ++ channel r ++ "," ++ channel g ++ "," ++ channel b ++ ",1.0)")
  | lerpScalar, [a, b, t] => some ("lerp(" ++ a ++ "," ++ b ++ "," ++ channel t ++ ")")
  | fixed text, [] => some text
  | _, _ => none

end Shape

/-- The meaning of a function on numbers. -/
inductive Scalar where
  | unary (f : Binary32 → Binary32)
  | binary (f : Binary32 → Binary32 → Binary32)
  | tertiary (f : Binary32 → Binary32 → Binary32 → Binary32)

namespace Scalar

/-- The number of arguments. -/
def arity : Scalar → Nat
  | unary _ => 1
  | binary _ => 2
  | tertiary _ => 3

/-- The value at the given arguments; none if their number is wrong. -/
def value? : Scalar → List Binary32 → Option Binary32
  | unary f, [a] => some (f a)
  | binary f, [a, b] => some (f a b)
  | tertiary f, [a, b, c] => some (f a b c)
  | _, _ => none

end Scalar

/-- A built-in function. Functions without a scalar exist in the shader only. -/
structure Function where
  name : String
  arity : Nat
  shape : Shape
  scalar : Option Scalar

end ImageFormula
