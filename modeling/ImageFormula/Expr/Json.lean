import ImageFormula.Expr.Basic
import ImageFormula.Json

/-! Trees as JSON: one object for each node, under the name of its sort. -/

namespace ImageFormula

def Span.json (span : Span) : Json :=
  .object [("start", .natural span.start), ("end", .natural span.stop)]

namespace Expr

/-- An object with a single field, whose name tells the sort of the node. -/
def tagged (tag : String) (fields : List (String × Json)) : Json := .object [(tag, .object fields)]

/-- The tree as JSON. -/
def json : Expr → Json
  | number value => .object [("number", .number value)]
  | image slot => .object [("image", .natural slot)]
  | binary lhs op rhs =>
    tagged "binary" [("lhs", lhs.json), ("op", .string op.name), ("rhs", rhs.json)]
  | intrinsic name span => tagged "intrinsic" [("name", .string name), ("span", span.json)]
  | unary name arg span =>
    tagged "unary" [("name", .string name), ("arg", arg.json), ("span", span.json)]
  | binaryCall name first second span =>
    tagged "binary_call"
      [("name", .string name), ("args", .array [first.json, second.json]), ("span", span.json)]
  | tertiary name first second third span =>
    tagged "tertiary"
      [("name", .string name), ("args", .array [first.json, second.json, third.json]),
        ("span", span.json)]

end Expr

end ImageFormula
