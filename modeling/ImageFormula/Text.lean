/-! Formulas as texts: the case of letters, white space, and places.

Names of a formula are compared without regard to the case of ASCII letters; letters outside ASCII
keep their case. White space separates lexemes. A place is counted in characters. -/

namespace ImageFormula

namespace Text

/-! ## Case -/

/-- The text with its ASCII letters in lower case. -/
def lower (text : String) : String := String.ofList (text.toList.map Char.toLower)

/-- Whether two texts differ at most in the case of ASCII letters. -/
def sameLetters (a b : String) : Bool := lower a == lower b

/-! ## White space -/

/-- The code points of Unicode property `White_Space`, as ranges with both ends included. -/
def blankRanges : List (Nat × Nat) :=
  [(0x9, 0xD), (0x20, 0x20), (0x85, 0x85), (0xA0, 0xA0), (0x1680, 0x1680), (0x2000, 0x200A),
    (0x2028, 0x2029), (0x202F, 0x202F), (0x205F, 0x205F), (0x3000, 0x3000)]

/-- Whether a character is white space. -/
def isBlank (c : Char) : Bool :=
  blankRanges.any fun (low, high) => low ≤ c.toNat && c.toNat ≤ high

end Text

/-! ## Places -/

/-- The characters from `start` up to, and without, `stop`. -/
structure Span where
  start : Nat
  stop : Nat
  deriving DecidableEq, Repr, Inhabited

namespace Span

/-- The smallest span that covers both. -/
def merge (a b : Span) : Span := ⟨min a.start b.start, max a.stop b.stop⟩

/-- The number of characters; zero where the ends are in the wrong order. -/
def length (span : Span) : Nat := span.stop - span.start

def isEmpty (span : Span) : Bool := span.length == 0

def text (span : Span) : String := toString span.start ++ ".." ++ toString span.stop

/-- The smallest span that covers all of a list; none for the empty list. -/
def hull? : List Span → Option Span
  | [] => none
  | first :: more => some (more.foldl merge first)

end Span

end ImageFormula
