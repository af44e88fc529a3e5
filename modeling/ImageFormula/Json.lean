import ImageFormula.Number.Layout

/-! JSON texts, on one line or indented. -/

namespace ImageFormula

inductive Json where
  | null
  | natural (n : Nat)
  | number (x : Binary32)
  | string (text : String)
  | array (items : List Json)
  | object (fields : List (String × Json))

namespace Json

/-- A character inside a string. Quotes, backslashes and control characters are escaped. -/
def escaped (c : Char) : List Char :=
  match c with
  | '"' => ['\\', '"']
  | '\\' => ['\\', '\\']
  | '\n' => ['\\', 'n']
  | '\r' => ['\\', 'r']
  | '\t' => ['\\', 't']
  | '\x08' => ['\\', 'b']
  | '\x0c' => ['\\', 'f']
  | _ =>
    if c.toNat < 32 then
      let digits := Nat.toDigits 16 c.toNat
      '\\' :: 'u' :: List.replicate (4 - digits.length) '0' ++ digits
    else [c]

def quoted (text : String) : String :=
  "\"" ++ String.ofList (text.toList.flatMap escaped) ++ "\""

/-- A number; those without a literal are null. -/
def numberText (x : Binary32) : String :=
  if x.isFinite then String.ofList (Layout.json.numberText x) else "null"

mutual

/-- The text on one line, without blanks. -/
def compact : Json → String
  | null => "null"
  | natural n => toString n
  | number x => numberText x
  | string text => quoted text
  | array items => "[" ++ String.intercalate "," (compactItems items) ++ "]"
  | object fields => "\x7b" ++ String.intercalate "," (compactFields fields) ++ "\x7d"

def compactItems : List Json → List String
  | [] => []
  | item :: more => item.compact :: compactItems more

def compactFields : List (String × Json) → List String
  | [] => []
  | field :: more => compactField field :: compactFields more

def compactField : String × Json → String
  | (key, value) => quoted key ++ ":" ++ value.compact

end

/-- A line break and two blanks for each level. -/
def newLine (level : Nat) : String := String.ofList ('\n' :: List.replicate (2 * level) ' ')

/-- Parts between two brackets, each on a line of its own; nothing between them if there is none. -/
def block (level : Nat) (opener closer : String) (parts : List String) : String :=
  if parts.isEmpty then opener ++ closer
  else opener ++ newLine (level + 1) ++ String.intercalate ("," ++ newLine (level + 1)) parts ++
    newLine level ++ closer

mutual

/-- The text over several lines, indented from `level` on. -/
def indented (level : Nat) : Json → String
  | null => "null"
  | natural n => toString n
  | number x => numberText x
  | string text => quoted text
  | array items => block level "[" "]" (indentedItems (level + 1) items)
  | object fields => block level "\x7b" "\x7d" (indentedFields (level + 1) fields)

def indentedItems (level : Nat) : List Json → List String
  | [] => []
  | item :: more => item.indented level :: indentedItems level more

def indentedFields (level : Nat) : List (String × Json) → List String
  | [] => []
  | field :: more => indentedField level field :: indentedFields level more

def indentedField (level : Nat) : String × Json → String
  | (key, value) => quoted key ++ ": " ++ value.indented level

end

/-- The text over several lines. -/
def pretty (json : Json) : String := json.indented 0

end Json

end ImageFormula
