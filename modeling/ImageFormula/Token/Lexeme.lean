import ImageFormula.Expr.Operator
import ImageFormula.Text

/-! Lexemes: how the text of a formula is cut, before any name is looked up. -/

namespace ImageFormula

/-- What a lexeme is. Words are numbers and names alike. -/
inductive LexemeKind where
  | word (text : String)
  | operator (op : Operator)
  | bracketOpen
  | bracketClose
  | separator
  /-- A word directly followed by an opening bracket. -/
  | functionStart (name : String)
  deriving DecidableEq, Repr

/-- A lexeme with its place. -/
structure Lexeme where
  kind : LexemeKind
  span : Span
  deriving DecidableEq, Repr

/-- The part that a character plays in the cutting. -/
inductive Mark where
  | operator (op : Operator)
  | separator
  | bracketOpen
  | bracketClose
  | blank
  | letter
  deriving DecidableEq, Repr

def Mark.ofChar (c : Char) : Mark :=
  match Operator.ofChar? c with
  | some op => operator op
  | none =>
    if c = ',' then separator
    else if c = '(' then bracketOpen
    else if c = ')' then bracketClose
    else if Text.isBlank c then blank
    else letter

namespace Lexeme

/-- Whether a word, given in reverse, is a number up to the mark of its exponent: it starts with a
digit or a point and ends in a digit and `e`. -/
def expectsExponent : List Char → Bool
  | mark :: digit :: more =>
    (mark == 'e' || mark == 'E') && digit.isDigit &&
      (match (digit :: more).getLast? with
        | some first => first.isDigit || first == '.'
        | none => false)
  | _ => false

/-- The word that ends before `position`, given in reverse; none if nothing was held. -/
def heldWord (position : Nat) (held : List Char) : List Lexeme :=
  if held.isEmpty then []
  else [⟨.word (String.ofList held.reverse), ⟨position - held.length, position⟩⟩]

/-- Cuts the rest of a text. `held` is the word read so far, in reverse, which ends at `position`. A
sign after the mark of an exponent belongs to the number. -/
def cutFrom (position : Nat) (held : List Char) : List Char → List Lexeme
  | [] => heldWord position held
  | c :: rest =>
    let place : Span := ⟨position, position + 1⟩
    match Mark.ofChar c with
    | .operator op =>
      if op.isSign && expectsExponent held then cutFrom (position + 1) (c :: held) rest
      else heldWord position held ++ ⟨.operator op, place⟩ :: cutFrom (position + 1) [] rest
    | .separator => heldWord position held ++ ⟨.separator, place⟩ :: cutFrom (position + 1) [] rest
    | .bracketOpen =>
      if held.isEmpty then ⟨.bracketOpen, place⟩ :: cutFrom (position + 1) [] rest
      else
        ⟨.functionStart (String.ofList held.reverse), ⟨position - held.length, position + 1⟩⟩ ::
          cutFrom (position + 1) [] rest
    | .bracketClose =>
      heldWord position held ++ ⟨.bracketClose, place⟩ :: cutFrom (position + 1) [] rest
    | .blank => heldWord position held ++ cutFrom (position + 1) [] rest
    | .letter => cutFrom (position + 1) (c :: held) rest

/-- The lexemes of a text. -/
def cut (text : String) : List Lexeme := cutFrom 0 [] text.toList

end Lexeme

end ImageFormula
