import ImageFormula.Expr.Basic
import ImageFormula.Number.Layout

/-! Tokens: what rules match and reduce. -/

namespace ImageFormula

/-- What a token is. A value carries a subexpression that is already reduced. -/
inductive TokenKind where
  | value (expr : Expr)
  | operator (op : Operator)
  | bracketOpen
  | bracketClose
  | separator
  /-- A name with the bracket that opens its arguments. -/
  | functionStart (name : String)
  deriving DecidableEq, Repr

/-- Token kinds without what they carry; operators are told apart by their tier. -/
inductive TokenClass where
  | value
  | power
  | product
  | sum
  | bracketOpen
  | bracketClose
  | separator
  | functionStart
  deriving DecidableEq, Repr

/-- The name of a class in token listings. -/
def TokenClass.label : TokenClass → String
  | value => "Value"
  | power => "Op1"
  | product => "Op2"
  | sum => "Op3"
  | bracketOpen => "BracketOpen"
  | bracketClose => "BracketClose"
  | separator => "Separator"
  | functionStart => "FunctionStart"

/-- The class of an operator, by its tier. -/
def Operator.tokenClass : Operator → TokenClass
  | .pow => .power
  | .mul | .div => .product
  | .add | .sub => .sum

namespace TokenKind

def tokenClass : TokenKind → TokenClass
  | value _ => .value
  | operator op => op.tokenClass
  | bracketOpen => .bracketOpen
  | bracketClose => .bracketClose
  | separator => .separator
  | functionStart _ => .functionStart

/-- The text of a token in listings. -/
def text : TokenKind → String
  | value (.number x) => x.text
  | value (.image slot) => "I" ++ toString slot
  | value _ => "<expr>"
  | operator op => op.symbol.toString
  | bracketOpen => "("
  | bracketClose => ")"
  | separator => ","
  | functionStart name => name ++ "("

end TokenKind

/-- A token with its place. The depth is the height of the tree that a value carries, and zero for
all other tokens. -/
structure Token where
  kind : TokenKind
  span : Span
  depth : Nat
  deriving DecidableEq, Repr

namespace Token

/-- A token as it stands in a formula, where values are leaves. -/
def ofKind (kind : TokenKind) (span : Span) : Token :=
  ⟨kind, span, match kind with
    | .value _ => 1
    | _ => 0⟩

def tokenClass (token : Token) : TokenClass := token.kind.tokenClass

/-- Whether the token opens a group. -/
def isOpener (token : Token) : Bool :=
  match token.kind with
  | .bracketOpen | .functionStart _ => true
  | _ => false

/-- Whether the token closes a group. -/
def isCloser (token : Token) : Bool :=
  match token.kind with
  | .bracketClose => true
  | _ => false

/-- The hull of the places of a token sequence. -/
def hull? (tokens : List Token) : Option Span := Span.hull? (tokens.map span)

end Token

end ImageFormula
