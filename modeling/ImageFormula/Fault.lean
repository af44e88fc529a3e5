import ImageFormula.Text

/-! Why a formula is refused. A fault is a cause with its place; its wording is `Fault.message`. -/

namespace ImageFormula

/-- Why a token sequence does not come down to one expression. -/
inductive Obstacle where
  /-- A reducer was given tokens of the wrong kinds. -/
  | mismatch (reducer : String)
  /-- A rule put as many tokens as it took. -/
  | notShrunk (rule : String)
  /-- The tree is deeper than allowed. -/
  | tooDeep (limit : Nat)
  /-- A closing bracket has no opener. -/
  | extraCloser
  /-- An opening bracket is not closed. -/
  | unclosed
  /-- No rule applies, and more than one token is left. -/
  | leftover
  /-- One token is left, and it is not a value. -/
  | notAValue
  /-- A cause in the words of the caller. -/
  | stated (text : String)
  deriving DecidableEq, Repr

def Obstacle.message : Obstacle → String
  | mismatch reducer => "rule '" ++ reducer ++ "' applied to a non-matching token sequence"
  | notShrunk rule => "rule '" ++ rule ++ "' did not shrink the formula"
  | tooDeep limit => "formula is nested more than " ++ toString limit ++ " levels deep"
  | extraCloser => "too many closing brackets"
  | unclosed => "not all brackets were closed"
  | leftover => "could not resolve all tokens to an expression"
  | notAValue => "please enter a valid formula"
  | stated text => text

/-- What a numeric formula cannot contain. -/
inductive Unsupported where
  /-- An image name where only sizes and constants are known. -/
  | imageReference (identifier : String)
  /-- An image in a tree that is to be folded. -/
  | imageValue (slot : Nat)
  /-- A function that exists in the shader only. -/
  | noNumericForm (name : String)
  /-- A cause in the words of the caller. -/
  | stated (text : String)
  deriving DecidableEq, Repr

def Unsupported.message : Unsupported → String
  | imageReference identifier => "image reference '" ++ identifier ++ "' in a numeric formula"
  | imageValue slot => "image I" ++ toString slot ++ " cannot be evaluated to a number"
  | noNumericForm name => name ++ "() has no numeric form"
  | stated text => text

/-- Everything that can go wrong between a formula and its result. -/
inductive Fault where
  | emptyFormula
  | badImageIndex (identifier : String) (span : Span)
  | badNumber (literal : String) (span : Span)
  | unresolvable (obstacle : Obstacle) (span : Option Span)
  | unknownFunction (name : String) (arity : Nat) (span : Span)
  | notSupported (cause : Unsupported)
  | config (reason : String)
  | file (reason : String)
  deriving DecidableEq, Repr

namespace Fault

def message : Fault → String
  | emptyFormula => "please enter a formula"
  | badImageIndex identifier span =>
    "invalid image identifier '" ++ identifier ++ "' at " ++ span.text
  | badNumber literal span => "invalid number '" ++ literal ++ "' at " ++ span.text
  | unresolvable obstacle _ => obstacle.message
  | unknownFunction name arity span =>
    "unknown function '" ++ name ++ "' taking " ++ toString arity ++ " argument(s) at " ++ span.text
  | notSupported cause => "not supported: " ++ cause.message
  | config reason => "config error: " ++ reason
  | file reason => "IO error: " ++ reason

/-- The place of the offending part, where one is known. -/
def span? : Fault → Option Span
  | badImageIndex _ span | badNumber _ span | unknownFunction _ _ span => some span
  | unresolvable _ span => span
  | emptyFormula | notSupported _ | config _ | file _ => none

end Fault

end ImageFormula
