import ImageFormula.Toml.Numeral

/-! Reading TOML: keys, values, statements, documents.

A reader gives what it read and the rest of the text, or nothing if the text is not of its kind. -/

namespace ImageFormula.Toml

def skipBlanks (text : List Char) : List Char := text.dropWhile isLineBlank

/-- The text after blanks, line breaks and comments; `inComment` if it starts within a comment. A
comment ends early at a character that it must not have, which nothing else accepts. -/
def skipBreaks (inComment : Bool) : List Char → List Char
  | [] => []
  | '\n' :: rest => skipBreaks false rest
  | '\r' :: '\n' :: rest => skipBreaks false rest
  | c :: rest =>
    if inComment then if isPlain c then skipBreaks true rest else c :: rest
    else if isLineBlank c then skipBreaks false rest
    else if c = '#' then skipBreaks true rest
    else c :: rest

/-- Whether nothing but blanks and a comment is left of the line. -/
def endsLine (text : List Char) : Bool :=
  match skipBlanks text with
  | [] => true
  | '\n' :: _ => true
  | '\r' :: '\n' :: _ => true
  | '#' :: _ => true
  | _ => false

/-! ## Keys -/

def isKeyChar (c : Char) : Bool := c.isAlphanum || c == '_' || c == '-'

/-- One part of a key: quoted on one line, or bare. -/
def readKey : List Char → Option (String × List Char)
  | '"' :: rest => (readDouble rest).map fun (key, rest) => (String.ofList key, rest)
  | '\'' :: rest => (readSingle rest).map fun (key, rest) => (String.ofList key, rest)
  | text =>
    let key := text.takeWhile isKeyChar
    if key.isEmpty then none else some (String.ofList key, text.dropWhile isKeyChar)

/-- Keys have at most this many parts, and arrays and inline tables at most this many levels. -/
def nestingLimit : Nat := 80

/-- The parts of a key between dots, with blanks around the dots. -/
def readParts (text : List Char) : Option (List String × List Char) :=
  match readKey text with
  | none => none
  | some (key, rest) =>
    match skipBlanks rest with
    | '.' :: more =>
      if _shorter : (skipBlanks more).length < text.length then
        (readParts (skipBlanks more)).map fun (path, rest) => (key :: path, rest)
      else none
    | _ => some ([key], rest)
termination_by text.length

/-- A key. -/
def readPath (text : List Char) : Option (List String × List Char) :=
  (readParts text).filter fun (path, _) => path.length ≤ nestingLimit

/-! ## Values -/

/-- Characters of values that have no quotes or brackets. -/
def isBareChar (c : Char) : Bool := isKeyChar c || c == '+' || c == '.' || c == ':'

/-- The characters of a bare value, and the rest of the text. A blank belongs to it only between a
date and a time. -/
def bareWord (text : List Char) : List Char × List Char :=
  let word := text.takeWhile isBareChar
  match text.dropWhile isBareChar with
  | ' ' :: c :: rest =>
    if isDate word && c.isDigit then
      (word ++ ' ' :: (c :: rest).takeWhile isBareChar, (c :: rest).dropWhile isBareChar)
    else (word, ' ' :: c :: rest)
  | rest => (word, rest)

def readBare (text : List Char) : Option (Node × List Char) :=
  let (word, rest) := bareWord text
  (bareValue? word).map fun node => (node, rest)

mutual

/-- A value with up to `levels` levels of arrays and inline tables. The fuel bounds how many values
and list entries are read. -/
def readValue (levels : Nat) : Nat → List Char → Option (Node × List Char)
  | 0, _ => none
  | fuel + 1, text =>
    match text with
    | '[' :: rest =>
      if levels = 0 then none
      else (readItems (levels - 1) fuel rest).map fun (items, rest) => (.array items, rest)
    | '\x7b' :: rest =>
      if levels = 0 then none
      else (readEntries (levels - 1) fuel rest).bind fun (entries, rest) =>
        (Fields.assignAll entries []).map fun fields => (.table .inline fields, rest)
    | '"' :: _ => (readQuoted text).map fun (value, rest) => (.text (String.ofList value), rest)
    | '\'' :: _ => (readQuoted text).map fun (value, rest) => (.text (String.ofList value), rest)
    | _ => readBare text

/-- The rest of an array, after its bracket or a comma. -/
def readItems (levels : Nat) : Nat → List Char → Option (List Node × List Char)
  | 0, _ => none
  | fuel + 1, text =>
    match skipBreaks false text with
    | ']' :: rest => some ([], rest)
    | start =>
      (readValue levels fuel start).bind fun (item, rest) =>
        match skipBreaks false rest with
        | ',' :: rest =>
          (readItems levels fuel rest).map fun (items, rest) => (item :: items, rest)
        | ']' :: rest => some ([item], rest)
        | _ => none

/-- The rest of an inline table, after its brace or a comma. Lines may break anywhere but within a
key. -/
def readEntries (levels : Nat) : Nat → List Char → Option (List (List String × Node) × List Char)
  | 0, _ => none
  | fuel + 1, text =>
    match skipBreaks false text with
    | '\x7d' :: rest => some ([], rest)
    | start =>
      (readPath start).bind fun (path, rest) =>
        match skipBreaks false rest with
        | '=' :: rest =>
          (readValue levels fuel (skipBreaks false rest)).bind fun (value, rest) =>
            match skipBreaks false rest with
            | ',' :: rest =>
              (readEntries levels fuel rest).map fun (entries, rest) =>
                ((path, value) :: entries, rest)
            | '\x7d' :: rest => some ([(path, value)], rest)
            | _ => none
        | _ => none

end

/-! ## Statements -/

inductive Statement where
  | header (header : Header)
  | assignment (path : List String) (value : Node)

/-- A header, after its first bracket. -/
def readHeader : List Char → Option (Header × List Char)
  | '[' :: rest =>
    (readPath (skipBlanks rest)).bind fun (path, rest) =>
      match skipBlanks rest with
      | ']' :: ']' :: rest => some (⟨path, true⟩, rest)
      | _ => none
  | text =>
    (readPath (skipBlanks text)).bind fun (path, rest) =>
      match skipBlanks rest with
      | ']' :: rest => some (⟨path, false⟩, rest)
      | _ => none

/-- A key with its value. -/
def readAssignment (text : List Char) : Option ((List String × Node) × List Char) :=
  (readPath text).bind fun (path, rest) =>
    match skipBlanks rest with
    | '=' :: rest =>
      (readValue nestingLimit (rest.length + 1) (skipBlanks rest)).map fun (value, rest) =>
        ((path, value), rest)
    | _ => none

def readStatement : List Char → Option (Statement × List Char)
  | '[' :: rest => (readHeader rest).map fun (header, rest) => (.header header, rest)
  | text =>
    (readAssignment text).map fun ((path, value), rest) => (.assignment path value, rest)

/-- The statements of a text, each on lines of its own. -/
def readStatements (text : List Char) : Option (List Statement) :=
  match skipBreaks false text with
  | [] => some []
  | start =>
    match readStatement start with
    | none => none
    | some (statement, rest) =>
      if _shorter : rest.length < text.length then
        if endsLine rest then (readStatements rest).map (statement :: ·) else none
      else none
termination_by text.length

/-! ## Documents -/

/-- The assignments before the first header, and the sections. -/
def sections : List Statement → List (List String × Node) × List Section
  | [] => ([], [])
  | .assignment path value :: more =>
    let (own, parts) := sections more
    ((path, value) :: own, parts)
  | .header header :: more =>
    let (own, parts) := sections more
    ([], ⟨header, own⟩ :: parts)

/-- The tree of a document. -/
def build (statements : List Statement) : Option Fields :=
  let (own, parts) := sections statements
  (Fields.assignAll own []).bind fun root =>
    parts.foldlM (fun document part => part.addTo document) root

/-- A text without the byte order mark that it may start with. -/
def dropMark : List Char → List Char
  | '\ufeff' :: rest => rest
  | text => text

/-- The fields of a document. -/
def readDocument (text : String) : Option Fields :=
  (readStatements (dropMark text.toList)).bind build

end ImageFormula.Toml
