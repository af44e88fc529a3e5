import ImageFormula.Number.Rounding

/-! TOML documents as trees of tables, and how each statement extends a tree. -/

namespace ImageFormula.Toml

/-- How a table came to be. It decides what may extend the table later. -/
inductive Origin where
  /-- A header names it. -/
  | header
  /-- Longer headers pass through it, and nothing else. -/
  | implied
  /-- A dotted key passes through it. -/
  | dotted
  /-- It is written as a value, which closes it. -/
  | inline
  deriving DecidableEq, Repr

/-- A value of a document. Fields are in the order of the text. -/
inductive Node where
  | text (value : String)
  | integer (value : Int)
  /-- A number that is not an integer; false if it is too large and does not say that it is
  infinite. No setting is a float, so its value is not kept. -/
  | float (isInRange : Bool)
  | boolean (value : Bool)
  /-- A date, a time or both. No setting is one, so its value is not kept. -/
  | moment
  | array (items : List Node)
  | table (origin : Origin) (fields : List (String × Node))
  /-- The tables of an array that headers extend. -/
  | tables (items : List (List (String × Node)))

abbrev Fields := List (String × Node)

/-! ## Numbers that no reader can take -/

/-- Whether an integer has 128 bits at most. -/
def isRepresentable (n : Int) : Bool := -(twoPow 127 : Int) ≤ n && n < (twoPow 128 : Int)

mutual

/-- Whether every number of a node is one that a reader can take: an integer with a place in some
machine type, a float that is infinite only if it says so. -/
def Node.isReadable : Node → Bool
  | .integer n => isRepresentable n
  | .float isInRange => isInRange
  | .array items => allReadable items
  | .table _ fields => fieldsReadable fields
  | .tables items => tablesReadable items
  | .text _ | .boolean _ | .moment => true

def allReadable : List Node → Bool
  | [] => true
  | node :: more => node.isReadable && allReadable more

def fieldsReadable : List (String × Node) → Bool
  | [] => true
  | field :: more => fieldReadable field && fieldsReadable more

def fieldReadable : String × Node → Bool
  | (_, node) => node.isReadable

def tablesReadable : List (List (String × Node)) → Bool
  | [] => true
  | fields :: more => fieldsReadable fields && tablesReadable more

end

/-! ## Extending tables -/

namespace Fields

/-- The fields with the node at `key` changed. -/
def replace (key : String) (node : Node) (fields : Fields) : Fields :=
  fields.map fun field => if field.1 = key then (key, node) else field

/-- The list with its last entry changed. -/
def changeLast {α : Type} (change : α → Option α) : List α → Option (List α)
  | [] => none
  | [last] => (change last).map fun changed => [changed]
  | first :: more => (changeLast change more).map (first :: ·)

/-- Gives the dotted key a value. Every key is given one only once. A table that has a header of its
own, or is closed, is not reached by a dotted key; the last table of an array is passed through, but
takes no value itself. -/
def assign (value : Node) : List String → Fields → Option Fields
  | [], _ => none
  | [key], fields =>
    match fields.lookup key with
    | some _ => none
    | none => some (fields ++ [(key, value)])
  | key :: more, fields =>
    match fields.lookup key with
    | none => (assign value more []).map fun inner => fields ++ [(key, .table .dotted inner)]
    | some (.table .dotted inner) =>
      (assign value more inner).map fun inner => fields.replace key (.table .dotted inner)
    | some (.table .implied inner) =>
      (assign value more inner).map fun inner => fields.replace key (.table .dotted inner)
    | some (.tables items) =>
      if more.length < 2 then none
      else (changeLast (assign value more) items).map fun items =>
        fields.replace key (.tables items)
    | some _ => none

/-- Gives several dotted keys their values, in order. -/
def assignAll : List (List String × Node) → Fields → Option Fields
  | [], fields => some fields
  | (path, value) :: more, fields => (assign value path fields).bind (assignAll more)

/-- Changes the fields of the table that holds the last key of a header, with all tables on the way
to it, which exist from then on. An array of tables stands for its last one. -/
def within (change : String → Fields → Option Fields) : List String → Fields → Option Fields
  | [], _ => none
  | [key], fields => change key fields
  | key :: more, fields =>
    match fields.lookup key with
    | none => (within change more []).map fun inner => fields ++ [(key, .table .implied inner)]
    | some (.table .inline _) => none
    | some (.table origin inner) =>
      (within change more inner).map fun inner => fields.replace key (.table origin inner)
    | some (.tables items) =>
      (changeLast (within change more) items).map fun items => fields.replace key (.tables items)
    | some _ => none

/-- Opens the table of a header and fills it. A table is opened only once. -/
def openTable (fill : Fields → Option Fields) (key : String) (fields : Fields) : Option Fields :=
  match fields.lookup key with
  | none => (fill []).map fun inner => fields ++ [(key, .table .header inner)]
  | some (.table .implied inner) =>
    (fill inner).map fun inner => fields.replace key (.table .header inner)
  | some _ => none

/-- Adds a table to an array of tables and fills it. -/
def openElement (fill : Fields → Option Fields) (key : String) (fields : Fields) : Option Fields :=
  match fields.lookup key with
  | none => (fill []).map fun inner => fields ++ [(key, .tables [inner])]
  | some (.tables items) =>
    (fill []).map fun inner => fields.replace key (.tables (items ++ [inner]))
  | some _ => none

end Fields

/-- A header: `[path]`, or `[[path]]` for one more table of an array. -/
structure Header where
  path : List String
  isElement : Bool
  deriving DecidableEq, Repr

/-- A header with the assignments below it. -/
structure Section where
  header : Header
  assignments : List (List String × Node)

/-- The document with one more section. -/
def Section.addTo (part : Section) (document : Fields) : Option Fields :=
  let fill := Fields.assignAll part.assignments
  document.within (if part.header.isElement then Fields.openElement fill else Fields.openTable fill)
    part.header.path

end ImageFormula.Toml
