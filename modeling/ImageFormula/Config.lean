import ImageFormula.Equation
import ImageFormula.Toml.Reader

/-! Settings, which are kept in a TOML file. -/

namespace ImageFormula

/-- The limits of formulas, and how much is logged. -/
structure Config where
  limits : Limits
  level : String
  deriving DecidableEq, Repr

/-- The number of a node, if it is a natural number below the bound. -/
def Toml.Node.natural? (bound : Nat) : Toml.Node → Option Nat
  | .integer n => if 0 ≤ n ∧ n < bound then some n.toNat else none
  | _ => none

namespace Config

def defaultLevel : String := "warn"

def default : Config := ⟨.default, defaultLevel⟩

/-- Slots are counted in 32 bits. -/
def slotBound : Nat := 0x100000000

/-- Depths are counted in 64 bits. -/
def depthBound : Nat := 0x10000000000000000

/-- The limits that two settings give; one that is absent has its default. -/
def limitsOf? (slots depth : Option Toml.Node) : Option Limits :=
  match slots.elim (some Limits.default.slots) (Toml.Node.natural? slotBound),
      depth.elim (some Limits.default.depth) (Toml.Node.natural? depthBound) with
  | some slots, some depth => some ⟨slots, depth⟩
  | _, _ => none

/-- Whether the fields of all other names, which have no effect, can at least be read. -/
def othersReadable (known : List String) (fields : Toml.Fields) : Bool :=
  fields.all fun field => known.contains field.1 || field.2.isReadable

/-- The limits of a `compiler` table, which may also be written as the list of its values. A moment
has fields of other names only. -/
def limits? : Toml.Node → Option Limits
  | .table _ fields =>
    if othersReadable ["max_image_slots", "max_depth"] fields then
      limitsOf? (fields.lookup "max_image_slots") (fields.lookup "max_depth")
    else none
  | .array items => limitsOf? items[0]? items[1]?
  | .moment => limitsOf? none none
  | _ => none

/-- The level of a `log` table, which may also be written as the list of its values. -/
def level? : Toml.Node → Option String
  | .table _ fields =>
    if othersReadable ["level"] fields then
      match fields.lookup "level" with
      | some (.text level) => some level
      | _ => none
    else none
  | .array (.text level :: _) => some level
  | _ => none

/-- The settings of a document. A table that is absent has its defaults. -/
def ofFields? (fields : Toml.Fields) : Option Config :=
  if othersReadable ["compiler", "log"] fields then
    match (fields.lookup "compiler").elim (some Limits.default) limits?,
        (fields.lookup "log").elim (some defaultLevel) level? with
    | some limits, some level => some ⟨limits, level⟩
    | _, _ => none
  else none

/-- The settings of a TOML text. -/
def parse (text : String) : Except Fault Config :=
  match Toml.readDocument text with
  | none => .error (.config "not a TOML document")
  | some fields =>
    match ofFields? fields with
    | none => .error (.config "not a valid setting")
    | some config => .ok config

/-- A line that gives a key its value. -/
def line (key : String) (value : List Char) : List Char :=
  key.toList ++ ' ' :: '=' :: ' ' :: value ++ ['\n']

/-- The settings as a TOML text. -/
def text (config : Config) : String :=
  String.ofList ("[compiler]\n".toList ++
    line "max_image_slots" (Nat.toDigits 10 config.limits.slots) ++
    line "max_depth" (Nat.toDigits 10 config.limits.depth) ++
    "\n[log]\n".toList ++ line "level" (Toml.quote config.level.toList))

end Config

end ImageFormula
