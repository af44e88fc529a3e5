import ImageFormula.Expr.Basic
import ImageFormula.Fault
import ImageFormula.Number.Decimal
import ImageFormula.Usage

/-! What the names in a formula stand for.

An image formula knows the slots `I0`, `I1`, … below a bound, and records which of them it
meets. A size formula knows `width`, `height` and `depth`. Both know the constants. -/

namespace ImageFormula

/-- The constant of a name, in any case. -/
def constant? (name : String) : Option Binary32 :=
  match Text.lower name with
  | "pi" => some .pi
  | "e" => some .euler
  | "inf" | "infinity" => some .infinity
  | "float_max" | "fmax" => some .greatest
  | "eps" | "epsilon" => some .smallest
  | "nan" => some .nan
  | _ => none

/-- The sizes of an image. -/
structure Sizes where
  width : Binary32
  height : Binary32
  depth : Binary32
  deriving DecidableEq, Repr

namespace Sizes

def zero : Sizes := ⟨.zero, .zero, .zero⟩

/-- A size by its name in lower case. -/
def get? (sizes : Sizes) : String → Option Binary32
  | "width" => some sizes.width
  | "height" => some sizes.height
  | "depth" => some sizes.depth
  | _ => none

end Sizes

/-- The names that a formula may use. -/
inductive Scope where
  /-- The slots below a bound, with those met so far. -/
  | images (bound : Nat) (usage : Usage)
  | sizes (sizes : Sizes)
  deriving DecidableEq, Repr

namespace Scope

/-- The slots met so far. -/
def usage : Scope → Usage
  | images _ usage => usage
  | sizes _ => .empty

/-- The slot of an image name: `I` and the digits of a number below the bound. -/
def slot? (bound : Nat) (index : List Char) : Option Nat :=
  match Decimal.digits? index with
  | some slot => if slot < bound then some slot else none
  | none => none

/-- What an identifier stands for, and the scope after it. Constants come before images, so that
`Inf` is a number; a refused identifier leaves the scope as it was. -/
def resolve (scope : Scope) (identifier : String) (span : Span) : Except Fault Expr × Scope :=
  match scope with
  | images bound usage =>
    match constant? identifier with
    | some value => (.ok (.number value), scope)
    | none =>
      match identifier.toList with
      | 'I' :: index =>
        match slot? bound index with
        | some slot => (.ok (.image slot), images bound (usage.record slot))
        | none => (.error (.badImageIndex identifier span), scope)
      | _ => (.error (.badNumber identifier span), scope)
  | sizes values =>
    match values.get? (Text.lower identifier), constant? identifier with
    | some value, _ | none, some value => (.ok (.number value), scope)
    | none, none =>
      match identifier.toList with
      | 'I' :: _ => (.error (.notSupported (.imageReference identifier)), scope)
      | _ => (.error (.badNumber identifier span), scope)

/-- What a word stands for: a word that starts with a letter is an identifier, any other one a
literal. A word that starts with a letter outside ASCII is neither, and is refused as a number. -/
def readWord (scope : Scope) (word : String) (span : Span) : Except Fault Expr × Scope :=
  match word.toList with
  | first :: _ =>
    if first.isAlpha then scope.resolve word span
    else
      match Decimal.parse? word.toList with
      | some decimal => (.ok (.number decimal.narrowed), scope)
      | none => (.error (.badNumber word span), scope)
  | [] => (.error (.badNumber word span), scope)

end Scope

end ImageFormula
