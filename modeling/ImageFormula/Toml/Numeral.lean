import ImageFormula.Number.Decimal
import ImageFormula.Toml.Moment
import ImageFormula.Toml.Node
import ImageFormula.Toml.Quoted

/-! Values that are written without quotes or brackets: numbers, truth values and moments. -/

namespace ImageFormula.Toml

/-- The digits of a text, where single underscores may stand between two of them. -/
def ungrouped? (isDigit : Char → Bool) : List Char → Option (List Char)
  | [] => none
  | [c] => if isDigit c then some [c] else none
  | c :: '_' :: more => if isDigit c then (ungrouped? isDigit more).map (c :: ·) else none
  | c :: more => if isDigit c then (ungrouped? isDigit more).map (c :: ·) else none

/-- The value of a whole number. It has no zeros in front. -/
def decimal? (text : List Char) : Option Nat :=
  match ungrouped? Char.isDigit text with
  | some ('0' :: _ :: _) => none
  | some digits => some (Nat.ofDigitChars 10 digits 0)
  | none => none

/-- The value of digits of another base, up to sixteen. -/
def based? (base : Nat) (text : List Char) : Option Nat :=
  (ungrouped? (fun c => (hexValue? c).any (· < base)) text).map fun digits =>
    digits.foldl (fun value c => base * value + (hexValue? c).getD 0) 0

/-- An integer. Only decimal ones have a sign. -/
def integer? : List Char → Option Int
  | '0' :: 'x' :: digits => (based? 16 digits).map Int.ofNat
  | '0' :: 'o' :: digits => (based? 8 digits).map Int.ofNat
  | '0' :: 'b' :: digits => (based? 2 digits).map Int.ofNat
  | '-' :: digits => (decimal? digits).map fun n => -Int.ofNat n
  | '+' :: digits => (decimal? digits).map Int.ofNat
  | digits => (decimal? digits).map Int.ofNat

def isGroupedDigit (c : Char) : Bool := c.isDigit || c == '_'

def withoutSign : List Char → List Char
  | '+' :: more => more
  | '-' :: more => more
  | text => text

/-- Whether a text is empty or an exponent. -/
def isExponentPart : List Char → Bool
  | [] => true
  | mark :: more =>
    (mark == 'e' || mark == 'E') && (ungrouped? Char.isDigit (withoutSign more)).isSome

/-- Whether a text without sign is a number with a point or an exponent. -/
def hasFloatForm (body : List Char) : Bool :=
  (decimal? (body.takeWhile isGroupedDigit)).isSome &&
    match body.dropWhile isGroupedDigit with
    | [] => false
    | '.' :: more =>
      (ungrouped? Char.isDigit (more.takeWhile isGroupedDigit)).isSome &&
        isExponentPart (more.dropWhile isGroupedDigit)
    | exponent => isExponentPart exponent

/-- A number that is not an integer. -/
def float? (text : List Char) : Option Node :=
  let body := withoutSign text
  if body = ['i', 'n', 'f'] ∨ body = ['n', 'a', 'n'] then some (.float true)
  else if hasFloatForm body then
    (Decimal.parse? (body.filter (· != '_'))).map fun d => .float d.isWideFinite
  else none

/-- The value of a text without quotes or brackets. -/
def bareValue? (text : List Char) : Option Node :=
  if text = ['t', 'r', 'u', 'e'] then some (.boolean true)
  else if text = ['f', 'a', 'l', 's', 'e'] then some (.boolean false)
  else if isMoment text then some .moment
  else ((integer? text).map Node.integer).or (float? text)

end ImageFormula.Toml
