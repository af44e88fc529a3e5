import ImageFormula.ShaderFunction

/-! The shader source that emitted expressions rely on.

A host shader takes `getters` and `helpers` above the function that evaluates a formula, and
supplies `coord`, `layer`, `level` and the colour space converters itself. -/

namespace ImageFormula.Prelude

/-- The constructors of vectors with equal components. -/
def constructors : String :=
  "float4 f4(float v) \x7b return float4(v, v, v, v); \x7d\n" ++
  "float3 f3(float v) \x7b return float3(v, v, v); \x7d\n" ++
  "float2 f2(float v) \x7b return float2(v, v); \x7d\n"

/-- A comparison of two vectors, one or zero in each component. -/
def comparison (name operator : String) : String :=
  "float4 " ++ name ++ "(float4 a, float4 b)\n" ++
  "\x7b\n" ++
  "    float4 res = float4(0.0, 0.0, 0.0, 0.0);\n" ++
  "    [unroll] for(int i = 0; i < 4; ++i)\n" ++
  "        if(a[i] " ++ operator ++ " b[i]) res[i] = 1.0;\n" ++
  "    return res;\n" ++
  "\x7d\n"

def comparisons : List (String × String) :=
  [("fequal", "=="), ("fbigger", ">"), ("fsmaller", "<"), ("fbiggereq", ">="), ("fsmallereq", "<=")]

/-- The power operator on vectors, component by component. -/
def vectorPower : String :=
  "float4 powEx(float4 b, float4 e)\n" ++
  "\x7b\n" ++
  "    float4 res;\n" ++
  "    [unroll] for(int i = 0; i < 4; ++i)\n" ++
  "        res[i] = powExScalar(b[i], e[i]);\n" ++
  "    return res;\n" ++
  "\x7d\n"

/-- All helper functions. -/
def helpers : String :=
  constructors ++ String.join (comparisons.map fun (name, operator) => comparison name operator) ++
    ShaderFunction.power.text ++ vectorPower

/-- The binding of one texture. -/
def binding (slot : Nat) : String :=
  "Texture2DArray texture" ++ toString slot ++ " : register(t" ++ toString slot ++ ");\n"

/-- The accessor of one texture. -/
def getter (slot : Nat) : String :=
  "float4 GetTexture" ++ toString slot ++ "(uint3 coord) \x7b return texture" ++ toString slot ++
    ".Load(int4(coord.x, coord.y, layer, level)); \x7d\n"

/-- The bindings and then the accessors of the first `count` slots. -/
def getters (count : Nat) : String :=
  String.join ((List.range count).map binding) ++ String.join ((List.range count).map getter)

end ImageFormula.Prelude
