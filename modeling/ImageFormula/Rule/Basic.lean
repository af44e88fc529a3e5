import ImageFormula.Fault
import ImageFormula.Text
import ImageFormula.Token.Basic

/-! Rules: a pattern of token classes, and a reducer that makes one value of what it matches. -/

namespace ImageFormula

/-- What a rule asks of the token to the left of a match. -/
inductive LeftContext where
  | any
  /-- No value: the start of the sequence, or any other token. -/
  | noOperand
  deriving DecidableEq, Repr

/-- The ways to make a value of a run of tokens. -/
inductive Reducer where
  | operator
  | sign
  | brackets
  | call
  deriving DecidableEq, Repr

namespace Reducer

/-- A value that stands for a run of tokens. -/
def valueOf (tokens : List Token) (expr : Expr) (depth : Nat) : Token :=
  ⟨.value expr, (Token.hull? tokens).getD ⟨0, 0⟩, depth⟩

/-- The depth of the deepest token of a run. -/
def operandDepth (tokens : List Token) : Nat := (tokens.map Token.depth).foldl max 0

/-- The arguments among the tokens after the opener of a call. -/
def arguments? : List Token → Option (List Expr)
  | [] => some []
  | token :: rest =>
    match token.kind with
    | .value expr => (arguments? rest).map (expr :: ·)
    | .separator | .bracketClose => arguments? rest
    | _ => none

/-- A value, an operator and a value. -/
def operator? (tokens : List Token) : Option Token :=
  match tokens.map Token.kind with
  | [.value lhs, .operator op, .value rhs] =>
    some (valueOf tokens (.binary lhs op rhs) (operandDepth tokens + 1))
  | _ => none

/-- A sign and a value. A plus sign adds nothing to the tree. -/
def sign? (tokens : List Token) : Option Token :=
  match tokens.map Token.kind with
  | [.operator .sub, .value expr] => some (valueOf tokens expr.negate (operandDepth tokens + 1))
  | [.operator .add, .value expr] => some (valueOf tokens expr (operandDepth tokens))
  | _ => none

/-- A value in brackets. -/
def brackets? (tokens : List Token) : Option Token :=
  match tokens.map Token.kind with
  | [.bracketOpen, .value expr, .bracketClose] => some (valueOf tokens expr (operandDepth tokens))
  | _ => none

/-- A name with its arguments; the name goes into lower case. -/
def call? (tokens : List Token) : Option Token :=
  match tokens with
  | [] => none
  | opener :: rest =>
    match opener.kind, arguments? rest with
    | .functionStart name, some args =>
      (Expr.call? (Text.lower name) opener.span args).map fun expr =>
        valueOf tokens expr (operandDepth tokens + 1)
    | _, _ => none

/-- The name under which a reducer reports tokens that it cannot take. -/
def label : Reducer → String
  | operator => "binary operator"
  | sign => "sign"
  | brackets => "brackets"
  | call => "call"

def reduce? : Reducer → List Token → Option Token
  | operator => operator?
  | sign => sign?
  | brackets => brackets?
  | call => call?

/-- The value that a run of tokens comes down to. -/
def apply (reducer : Reducer) (tokens : List Token) : Except Fault Token :=
  match reducer.reduce? tokens with
  | some token => .ok token
  | none => .error (.unresolvable (.mismatch reducer.label) (Token.hull? tokens))

end Reducer

/-- A rule. -/
structure Rule where
  name : String
  pattern : List TokenClass
  left : LeftContext
  reducer : Reducer
  deriving DecidableEq, Repr

namespace Rule

/-- Whether the context on the left allows a match. -/
def leftAllows (rule : Rule) (left : Option Token) : Bool :=
  match rule.left, left with
  | .noOperand, some token => token.tokenClass != .value
  | _, _ => true

/-- Whether the pattern matches the start of a token sequence. -/
def matchesPattern : List TokenClass → List Token → Bool
  | [], _ => true
  | _ :: _, [] => false
  | expected :: pattern, token :: tokens =>
    token.tokenClass == expected && matchesPattern pattern tokens

/-- A token sequence, cut around a match. -/
structure Match where
  before : List Token
  matched : List Token
  after : List Token

/-- The leftmost match, when `left` is the token before the sequence. -/
def matchFrom? (rule : Rule) (left : Option Token) (tokens : List Token) : Option Match :=
  if rule.leftAllows left && matchesPattern rule.pattern tokens then
    some ⟨[], tokens.take rule.pattern.length, tokens.drop rule.pattern.length⟩
  else
    match tokens with
    | [] => none
    | token :: rest =>
      (rule.matchFrom? (some token) rest).map fun found =>
        { found with before := token :: found.before }

/-- The leftmost match. -/
def match? (rule : Rule) (tokens : List Token) : Option Match := rule.matchFrom? none tokens

/-- The position of the leftmost match. -/
def find? (rule : Rule) (tokens : List Token) : Option Nat :=
  (rule.match? tokens).map fun found => found.before.length

end Rule

end ImageFormula
