import ImageFormula.Function.Basic

/-! Functions on numbers in the shader: their text, and their value.

A function is written with operators of binary32 arithmetic, `frac`, `fmod` and `pow`. Its text and
its value are read off the same body; what `pow` stands for is up to the platform. -/

namespace ImageFormula

namespace ShaderFunction

/-- What a name stands for. -/
abbrev Environment := String → Binary32

/-- What `pow` stands for. -/
abbrev PowerFunction := Binary32 → Binary32 → Binary32

/-- A number, without any operator that would need brackets. -/
inductive Term where
  | named (name : String)
  | negated (name : String)
  | number (x : Binary32)
  /-- `x - floor(x)` -/
  | frac (x : Term)
  /-- The remainder of a division, with the sign of `x`. -/
  | fmod (x y : Term)
  | pow (x y : Term)
  deriving DecidableEq, Repr

namespace Term

def text : Term → String
  | named name => name
  | negated name => "-" ++ name
  | number x => x.shaderScalar
  | frac x => "frac(" ++ x.text ++ ")"
  | fmod x y => "fmod(" ++ x.text ++ ", " ++ y.text ++ ")"
  | pow x y => "pow(" ++ x.text ++ ", " ++ y.text ++ ")"

def value (power : PowerFunction) (environment : Environment) : Term → Binary32
  | named name => environment name
  | negated name => -environment name
  | number x => x
  | frac x => (x.value power environment).frac
  | fmod x y => x.value power environment % y.value power environment
  | pow x y => power (x.value power environment) (y.value power environment)

end Term

inductive Comparison where
  | equal
  | unequal
  | greater
  deriving DecidableEq, Repr

namespace Comparison

def text : Comparison → String
  | equal => "=="
  | unequal => "!="
  | greater => ">"

/-- Whether the comparison holds. A NaN is unequal to every number. -/
def holds : Comparison → Binary32 → Binary32 → Bool
  | equal, x, y => x.equals y
  | unequal, x, y => !x.equals y
  | greater, x, y => y.less x

end Comparison

structure Condition where
  left : Term
  comparison : Comparison
  right : Term
  deriving DecidableEq, Repr

namespace Condition

def text (condition : Condition) : String :=
  condition.left.text ++ " " ++ condition.comparison.text ++ " " ++ condition.right.text

def holds (condition : Condition) (power : PowerFunction) (environment : Environment) : Bool :=
  condition.comparison.holds (condition.left.value power environment)
    (condition.right.value power environment)

end Condition

/-- The statements of a function. Every path ends in a result. -/
inductive Body where
  | give (value : Term)
  | choose (condition : Condition) (yes no : Term)
  | giveIf (condition : Condition) (value : Term) (next : Body)
  | block (condition : Condition) (inner next : Body)
  | declare (name : String) (value : Term) (next : Body)
  deriving DecidableEq, Repr

namespace Body

/-- Blanks in front of a statement. -/
def indent (level : Nat) : String := String.ofList (List.replicate (4 * level) ' ')

def text (level : Nat) : Body → String
  | give value => indent level ++ "return " ++ value.text ++ ";\n"
  | choose condition yes no =>
    indent level ++ "return " ++ condition.text ++ " ? " ++ yes.text ++ " : " ++ no.text ++ ";\n"
  | giveIf condition value next =>
    indent level ++ "if(" ++ condition.text ++ ") return " ++ value.text ++ ";\n" ++ next.text level
  | block condition inner next =>
    indent level ++ "if(" ++ condition.text ++ ")\n" ++ indent level ++ "\x7b\n" ++
      inner.text (level + 1) ++ indent level ++ "\x7d\n" ++ next.text level
  | declare name value next =>
    indent level ++ "float " ++ name ++ " = " ++ value.text ++ ";\n" ++ next.text level

def value (power : PowerFunction) (environment : Environment) : Body → Binary32
  | give value => value.value power environment
  | choose condition yes no =>
    if condition.holds power environment then yes.value power environment
    else no.value power environment
  | giveIf condition value next =>
    if condition.holds power environment then value.value power environment
    else next.value power environment
  | block condition inner next =>
    if condition.holds power environment then inner.value power environment
    else next.value power environment
  | declare name value next =>
    let bound := value.value power environment
    next.value power fun other => if other = name then bound else environment other

end Body

end ShaderFunction

/-- A function of two numbers in the shader. -/
structure ShaderFunction where
  name : String
  first : String
  second : String
  body : ShaderFunction.Body
  deriving DecidableEq, Repr

namespace ShaderFunction

def text (function : ShaderFunction) : String :=
  "float " ++ function.name ++ "(float " ++ function.first ++ ", float " ++ function.second ++
    ")\n\x7b\n" ++ function.body.text 1 ++ "\x7d\n"

/-- The result for two arguments. -/
def value (function : ShaderFunction) (power : PowerFunction) (x y : Binary32) : Binary32 :=
  function.body.value power fun name => if name = function.first then x else y

/-- The power operator on numbers. -/
def power : ShaderFunction :=
  let base := Term.named "b"
  let exponent := Term.named "e"
  let zero := Term.number .zero
  { name := "powExScalar"
    first := "b"
    second := "e"
    body :=
      .block ⟨base, .equal, zero⟩
        (.giveIf ⟨exponent, .equal, zero⟩ (.number .nan)
          (.choose ⟨exponent, .greater, zero⟩ zero (.number .infinity)))
        (.giveIf ⟨base, .greater, zero⟩ (.pow base exponent)
          (.giveIf ⟨.frac exponent, .unequal, zero⟩ (.number .nan)
            (.declare "m" (.pow (.negated "b") exponent)
              (.choose ⟨.fmod exponent (.number .two), .equal, zero⟩
                (.named "m") (.negated "m"))))) }

end ShaderFunction

end ImageFormula
