/-! Strings in TOML: the four quoted forms, which one a text is written in, and how they are read.

A form is written between one or three quotes. Double quotes allow escapes, single quotes take every
character as it stands, and only three quotes allow line breaks. -/

namespace ImageFormula.Toml

/-- Whether a character is a control character. -/
def isControl (c : Char) : Bool := c.toNat < 32 || c.toNat == 127

/-- Whether a character may stand for itself within a line. -/
def isPlain (c : Char) : Bool := !isControl c || c == '\t'

/-! ## Writing -/

/-- The quotes around a text. -/
inductive Quotes where
  | double
  | single
  | tripleDouble
  | tripleSingle
  deriving DecidableEq, Repr

/-- The length of the longest run of `quote` in a text that `run` of them stand before. -/
def longestRun (quote : Char) (run : Nat) : List Char → Nat
  | [] => run
  | c :: more =>
    if c = quote then longestRun quote (run + 1) more else max run (longestRun quote 0 more)

/-- Whether a text has a control character other than tabs and line breaks. -/
def hasControl (text : List Char) : Bool :=
  text.any fun c => isControl c && c != '\t' && c != '\n'

/-- The quotes that a text is written in: the first ones that need no escape, else double ones. -/
def quotesFor (text : List Char) : Quotes :=
  let isBroken := text.contains '\n'
  let isControlled := hasControl text
  let isEscaped := text.contains '\\'
  if !isControlled && !isEscaped && !text.contains '"' && !isBroken then .double
  else if !isControlled && !text.contains '\'' && !isBroken then .single
  else if !isControlled && !isEscaped && longestRun '"' 0 text ≤ 2 then .tripleDouble
  else if !isControlled && longestRun '\'' 0 text ≤ 2 then .tripleSingle
  else if isBroken then .tripleDouble
  else .double

/-- A digit of base sixteen, in upper case. -/
def hexDigit (n : Nat) : Char :=
  if n < 10 then Char.ofNat (48 + n) else Char.ofNat (55 + n)

/-- A character other than a quote or a line break, between double quotes. -/
def escaped (c : Char) : List Char :=
  match c with
  | '\x08' => ['\\', 'b']
  | '\t' => ['\\', 't']
  | '\x0c' => ['\\', 'f']
  | '\r' => ['\\', 'r']
  | '\\' => ['\\', '\\']
  | _ =>
    if isControl c then
      ['\\', 'u', '0', '0', hexDigit (c.toNat / 16), hexDigit (c.toNat % 16)]
    else [c]

/-- The text between two double quotes. -/
def doubleBody (text : List Char) : List Char :=
  text.flatMap fun c =>
    if c = '"' then ['\\', '"'] else if c = '\n' then ['\\', 'n'] else escaped c

/-- The text between triple double quotes, after `run` quotes. The third quote in a row is escaped,
as three would end the text. -/
def tripleBody (run : Nat) : List Char → List Char
  | [] => []
  | c :: more =>
    if c = '"' then
      if run < 2 then '"' :: tripleBody (run + 1) more else '\\' :: '"' :: tripleBody 0 more
    else if c = '\n' then '\n' :: tripleBody 0 more
    else escaped c ++ tripleBody 0 more

/-- A line break, which readers drop, before a text that has one itself. -/
def leadingBreak (text : List Char) : List Char := if text.contains '\n' then ['\n'] else []

def Quotes.write (quotes : Quotes) (text : List Char) : List Char :=
  match quotes with
  | double => '"' :: doubleBody text ++ ['"']
  | single => '\'' :: text ++ ['\'']
  | tripleDouble =>
    '"' :: '"' :: '"' :: leadingBreak text ++ tripleBody 0 text ++ ['"', '"', '"']
  | tripleSingle =>
    '\'' :: '\'' :: '\'' :: leadingBreak text ++ text ++ ['\'', '\'', '\'']

/-- A text as a TOML string. -/
def quote (text : List Char) : List Char := (quotesFor text).write text

/-! ## Reading

Each reader starts after the opening quotes and gives the text and what follows the closing ones. -/

/-- What a reader gives: a text and the rest of the input. -/
abbrev Reading := Option (List Char × List Char)

/-- The reading with a character before its text. -/
def Reading.push (c : Char) (reading : Reading) : Reading :=
  reading.map fun (text, rest) => (c :: text, rest)

def hexValue? (c : Char) : Option Nat :=
  if '0' ≤ c ∧ c ≤ '9' then some (c.toNat - 48)
  else if 'a' ≤ c ∧ c ≤ 'f' then some (c.toNat - 87)
  else if 'A' ≤ c ∧ c ≤ 'F' then some (c.toNat - 55)
  else none

/-- The number that digits of base sixteen stand for, after those of `value`. -/
def hexNumber? (value : Nat) : List Char → Option Nat
  | [] => some value
  | c :: more => (hexValue? c).bind fun digit => hexNumber? (16 * value + digit) more

/-- The character with a code in base sixteen. -/
def hexChar? (digits : List Char) : Option Char :=
  (hexNumber? 0 digits).bind fun n => if n.isValidChar then some (Char.ofNat n) else none

/-- The character of an escape with one letter. -/
def escape? : Char → Option Char
  | 'b' => some '\x08'
  | 't' => some '\t'
  | 'n' => some '\n'
  | 'f' => some '\x0c'
  | 'r' => some '\r'
  | 'e' => some '\x1b'
  | '"' => some '"'
  | '\\' => some '\\'
  | _ => none

/-- Between double quotes. -/
def readDouble : List Char → Reading
  | [] => none
  | '"' :: rest => some ([], rest)
  | '\\' :: 'x' :: a :: b :: rest =>
    (hexChar? [a, b]).bind fun c => Reading.push c (readDouble rest)
  | '\\' :: 'u' :: a :: b :: c :: d :: rest =>
    (hexChar? [a, b, c, d]).bind fun c => Reading.push c (readDouble rest)
  | '\\' :: 'U' :: a :: b :: c :: d :: e :: f :: g :: h :: rest =>
    (hexChar? [a, b, c, d, e, f, g, h]).bind fun c => Reading.push c (readDouble rest)
  | '\\' :: letter :: rest => (escape? letter).bind fun c => Reading.push c (readDouble rest)
  | c :: rest => if isPlain c then Reading.push c (readDouble rest) else none

/-- Between single quotes. -/
def readSingle : List Char → Reading
  | [] => none
  | c :: rest =>
    if c = '\'' then some ([], rest)
    else if isPlain c then Reading.push c (readSingle rest)
    else none

def isLineBlank (c : Char) : Bool := c == ' ' || c == '\t'

/-- Whether only blanks stand before the end of the line. -/
def endsBlank (text : List Char) : Bool :=
  match text.dropWhile isLineBlank with
  | '\n' :: _ => true
  | '\r' :: '\n' :: _ => true
  | _ => false

/-- Between triple double quotes. Up to two more quotes may stand before the closing ones. After a
backslash that ends a line, `isJoining` drops blanks and line breaks. -/
def readTripleDouble (isJoining : Bool) : List Char → Reading
  | [] => none
  | '"' :: '"' :: '"' :: '"' :: '"' :: rest => some (['"', '"'], rest)
  | '"' :: '"' :: '"' :: '"' :: rest => some (['"'], rest)
  | '"' :: '"' :: '"' :: rest => some ([], rest)
  | '\r' :: '\n' :: rest =>
    if isJoining then readTripleDouble true rest
    else Reading.push '\r' (Reading.push '\n' (readTripleDouble false rest))
  | '\\' :: 'x' :: a :: b :: rest =>
    (hexChar? [a, b]).bind fun c => Reading.push c (readTripleDouble false rest)
  | '\\' :: 'u' :: a :: b :: c :: d :: rest =>
    (hexChar? [a, b, c, d]).bind fun c => Reading.push c (readTripleDouble false rest)
  | '\\' :: 'U' :: a :: b :: c :: d :: e :: f :: g :: h :: rest =>
    (hexChar? [a, b, c, d, e, f, g, h]).bind fun c => Reading.push c (readTripleDouble false rest)
  | '\\' :: c :: rest =>
    match escape? c with
    | some c => Reading.push c (readTripleDouble false rest)
    | none => if endsBlank (c :: rest) then readTripleDouble true rest else none
  | c :: rest =>
    if isJoining && (isLineBlank c || c == '\n') then readTripleDouble true rest
    else if isPlain c || c == '\n' then Reading.push c (readTripleDouble false rest)
    else none

/-- Between triple single quotes. -/
def readTripleSingle : List Char → Reading
  | [] => none
  | '\'' :: '\'' :: '\'' :: '\'' :: '\'' :: rest => some (['\'', '\''], rest)
  | '\'' :: '\'' :: '\'' :: '\'' :: rest => some (['\''], rest)
  | '\'' :: '\'' :: '\'' :: rest => some ([], rest)
  | '\r' :: '\n' :: rest => Reading.push '\r' (Reading.push '\n' (readTripleSingle rest))
  | c :: rest =>
    if isPlain c || c == '\n' then Reading.push c (readTripleSingle rest) else none

/-- A text without the line break that it starts with. -/
def dropBreak : List Char → List Char
  | '\n' :: rest => rest
  | '\r' :: '\n' :: rest => rest
  | text => text

/-- A string in any of the four forms, from its opening quotes on. -/
def readQuoted : List Char → Reading
  | '"' :: '"' :: '"' :: rest => readTripleDouble false (dropBreak rest)
  | '"' :: rest => readDouble rest
  | '\'' :: '\'' :: '\'' :: rest => readTripleSingle (dropBreak rest)
  | '\'' :: rest => readSingle rest
  | _ => none

end ImageFormula.Toml
