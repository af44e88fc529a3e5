import ImageFormula.Function.Basic
import ImageFormula.Text

/-! The table of built-in functions. -/

namespace ImageFormula

namespace Binary32

/-- The power of a base that is first raised to zero. -/
def clampedPower (base exponent : Binary32) : Binary32 := power (base.maximum zero) exponent

/-- One where `x` has reached `edge`. -/
def step (edge x : Binary32) : Binary32 := flag (edge.lessEq x)

/-- The point between `a` and `b` at `t`. -/
def lerp (a b t : Binary32) : Binary32 := a + (b - a) * t

/-- The number, moved up to `low` and then down to `high`. -/
def clamp (x low high : Binary32) : Binary32 := (x.maximum low).minimum high

end Binary32

namespace Function

/-- A function of the shader without a value as a number. -/
def shaderOnly (name : String) (arity : Nat) (shape : Shape) : Function :=
  ⟨name, arity, shape, none⟩

def unary (name : String) (shape : Shape) (f : Binary32 → Binary32) : Function :=
  ⟨name, 1, shape, some (.unary f)⟩

def binary (name : String) (shape : Shape) (f : Binary32 → Binary32 → Binary32) : Function :=
  ⟨name, 2, shape, some (.binary f)⟩

/-- A channel that is read and spread over all four; a number has one value in all of them. -/
def channel (name channels : String) : Function := unary name (.swizzle channels) id

/-- All functions. -/
def table : List Function :=
  [ -- intrinsics
    shaderOnly "pos" 0 (.fixed "float4(coord.x,coord.y,0.0,1.0)"),
    shaderOnly "layer" 0 (.fixed "f4(layer)"),
    shaderOnly "level" 0 (.fixed "f4(level)"),
    -- channels
    channel "alpha" "aaaa",
    channel "a" "aaaa",
    channel "w" "aaaa",
    channel "red" "rrrr",
    channel "r" "rrrr",
    channel "x" "rrrr",
    channel "green" "gggg",
    channel "g" "gggg",
    channel "y" "gggg",
    channel "blue" "bbbb",
    channel "b" "bbbb",
    channel "z" "bbbb",
    -- colour spaces
    shaderOnly "tosrgb" 1 (.call "toSrgb"),
    shaderOnly "fromsrgb" 1 (.call "fromSrgb"),
    shaderOnly "srgbasunorm" 1 (.call "srgbAsUnorm"),
    shaderOnly "srgbassnorm" 1 (.call "srgbAsSnorm"),
    -- colours as vectors
    shaderOnly "normalize" 1 (.colourOfColours "normalize"),
    shaderOnly "length" 1 (.scalarOfColours "length"),
    shaderOnly "all" 1 (.testOfColour "all"),
    shaderOnly "any" 1 (.testOfColour "any"),
    -- functions of one number
    unary "abs" (.call "abs") .abs,
    unary "sin" (.call "sin") .sin,
    unary "cos" (.call "cos") .cos,
    unary "tan" (.call "tan") .tan,
    unary "asin" (.call "asin") .asin,
    unary "acos" (.call "acos") .acos,
    unary "atan" (.call "atan") .atan,
    unary "exp" (.call "exp") .exp,
    unary "exp2" (.call "exp2") .exp2,
    unary "log" (.call "log") .log,
    unary "log2" (.call "log2") .log2,
    unary "log10" (.call "log10") .log10,
    unary "sqrt" (.call "sqrt") .sqrt,
    unary "floor" (.call "floor") .floor,
    unary "ceil" (.call "ceil") .ceil,
    unary "frac" (.call "frac") .frac,
    unary "trunc" (.call "trunc") .trunc,
    unary "sign" (.call "sign") .sign,
    unary "radians" (.call "radians") .radians,
    -- functions of two arguments
    binary "pow" .clampedPower .clampedPower,
    binary "min" (.call "min") .minimum,
    binary "max" (.call "max") .maximum,
    binary "atan2" (.call "atan2") .atan2,
    binary "atan" (.call "atan2") .atan2,
    binary "fmod" (.call "fmod") .remainder,
    binary "step" (.call "step") .step,
    shaderOnly "dot" 2 (.scalarOfColours "dot"),
    shaderOnly "cross" 2 (.colourOfColours "cross"),
    shaderOnly "distance" 2 (.scalarOfColours "distance"),
    -- comparisons, one or zero
    binary "equal" (.call "fequal") fun a b => .flag (a.equals b),
    binary "bigger" (.call "fbigger") fun a b => .flag (b.less a),
    binary "smaller" (.call "fsmaller") fun a b => .flag (a.less b),
    binary "smallereq" (.call "fsmallereq") fun a b => .flag (a.lessEq b),
    binary "biggereq" (.call "fbiggereq") fun a b => .flag (b.lessEq a),
    -- functions of three arguments
    shaderOnly "rgb" 3 .composeRgb,
    ⟨"lerp", 3, .lerpScalar, some (.tertiary .lerp)⟩,
    ⟨"clamp", 3, .call "clamp", some (.tertiary .clamp)⟩ ]

/-- The function of a name, in any case, and a number of arguments. -/
def find? (name : String) (arity : Nat) : Option Function :=
  table.find? fun f => f.arity == arity && Text.sameLetters f.name name

/-- The names that can be called with a number of arguments. -/
def names (arity : Nat) : List String :=
  (table.filter fun f => f.arity == arity).map Function.name

end Function

end ImageFormula
