import ImageFormula.Rule.Basic

/-!
# The grammar of formulas

`Derives level tokens expr` says that a token sequence is a phrase of a level of the grammar and
that the grammar assigns it the tree `expr`. Nothing here mentions rules or their order; that the
engine of rules finds exactly these trees is the subject of `Proofs.Rewriting`.

* **primary**: a value, a sum in brackets, or a call of up to three sums;
* **run**: primaries joined by `^`, grouped from the left;
* **signed**: a run after any number of signs, the last one applied first;
* **chain**: signed phrases joined by `^`, grouped from the left. A run takes every `^` that has
  a primary on its right, so all phrases of a chain but the first start with a sign;
* **product** and **sum**: chains joined by `*` and `/`, products joined by `+` and `-`, both
  grouped from the left.
-/

namespace ImageFormula

/-- The levels of the grammar, tightest first. -/
inductive Level where
  | primary
  | run
  | signed
  | chain
  | product
  | sum
  deriving DecidableEq, Repr

/-- The phrases of each level with their trees. -/
inductive Derives : Level → List Token → Expr → Prop
  | value {token : Token} {expr : Expr} (isValue : token.kind = .value expr) :
      Derives .primary [token] expr
  | brackets {opener closer : Token} {inside : List Token} {expr : Expr}
      (opens : opener.kind = .bracketOpen) (closes : closer.kind = .bracketClose)
      (body : Derives .sum inside expr) :
      Derives .primary (opener :: (inside ++ [closer])) expr
  | intrinsic {opener closer : Token} {name : String}
      (opens : opener.kind = .functionStart name) (closes : closer.kind = .bracketClose) :
      Derives .primary [opener, closer] (.intrinsic (Text.lower name) opener.span)
  | unary {opener closer : Token} {name : String} {inside : List Token} {arg : Expr}
      (opens : opener.kind = .functionStart name) (closes : closer.kind = .bracketClose)
      (body : Derives .sum inside arg) :
      Derives .primary (opener :: (inside ++ [closer])) (.unary (Text.lower name) arg opener.span)
  | binaryCall {opener comma closer : Token} {name : String} {left right : List Token}
      {first second : Expr}
      (opens : opener.kind = .functionStart name) (separates : comma.kind = .separator)
      (closes : closer.kind = .bracketClose)
      (body : Derives .sum left first) (body' : Derives .sum right second) :
      Derives .primary (opener :: (left ++ comma :: (right ++ [closer])))
        (.binaryCall (Text.lower name) first second opener.span)
  | tertiary {opener comma comma' closer : Token} {name : String}
      {left middle right : List Token} {first second third : Expr}
      (opens : opener.kind = .functionStart name) (separates : comma.kind = .separator)
      (separates' : comma'.kind = .separator) (closes : closer.kind = .bracketClose)
      (body : Derives .sum left first) (body' : Derives .sum middle second)
      (body'' : Derives .sum right third) :
      Derives .primary (opener :: (left ++ comma :: (middle ++ comma' :: (right ++ [closer]))))
        (.tertiary (Text.lower name) first second third opener.span)
  | run {tokens : List Token} {expr : Expr} (primary : Derives .primary tokens expr) :
      Derives .run tokens expr
  | power {caret : Token} {left right : List Token} {base exponent : Expr}
      (raises : caret.kind = .operator .pow)
      (run : Derives .run left base) (primary : Derives .primary right exponent) :
      Derives .run (left ++ caret :: right) (.binary base .pow exponent)
  | unsigned {tokens : List Token} {expr : Expr} (run : Derives .run tokens expr) :
      Derives .signed tokens expr
  | plus {sign : Token} {tokens : List Token} {expr : Expr} (signs : sign.kind = .operator .add)
      (signed : Derives .signed tokens expr) :
      Derives .signed (sign :: tokens) expr
  | minus {sign : Token} {tokens : List Token} {expr : Expr} (signs : sign.kind = .operator .sub)
      (signed : Derives .signed tokens expr) :
      Derives .signed (sign :: tokens) expr.negate
  | chain {tokens : List Token} {expr : Expr} (signed : Derives .signed tokens expr) :
      Derives .chain tokens expr
  | chainPower {caret sign : Token} {op : Operator} {left right : List Token}
      {base exponent : Expr}
      (raises : caret.kind = .operator .pow) (signs : sign.kind = .operator op) (isSign : op.isSign)
      (chain : Derives .chain left base) (signed : Derives .signed (sign :: right) exponent) :
      Derives .chain (left ++ caret :: sign :: right) (.binary base .pow exponent)
  | product {tokens : List Token} {expr : Expr} (chain : Derives .chain tokens expr) :
      Derives .product tokens expr
  | times {token : Token} {op : Operator} {left right : List Token} {lhs rhs : Expr}
      (operates : token.kind = .operator op) (tier : op.tier = 2)
      (product : Derives .product left lhs) (chain : Derives .chain right rhs) :
      Derives .product (left ++ token :: right) (.binary lhs op rhs)
  | sum {tokens : List Token} {expr : Expr} (product : Derives .product tokens expr) :
      Derives .sum tokens expr
  | add {token : Token} {op : Operator} {left right : List Token} {lhs rhs : Expr}
      (operates : token.kind = .operator op) (tier : op.tier = 3)
      (sum : Derives .sum left lhs) (product : Derives .product right rhs) :
      Derives .sum (left ++ token :: right) (.binary lhs op rhs)

end ImageFormula
