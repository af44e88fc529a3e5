import ImageFormula.Command.Basic
import ImageFormula.Number.Decimal

/-! Reading the arguments of a command line.

Options and other arguments come in any order, and `--` ends the options. The settings that hold for
all commands stand before or after the name of the command. -/

namespace ImageFormula

/-- An argument as it stands. -/
inductive Argument where
  | word (text : String)
  /-- `--name` or `--name=value`. -/
  | long (name : String) (value : Option String)
  /-- `-letters`. -/
  | short (letters : List Char)
  /-- `--`. -/
  | terminator
  deriving DecidableEq, Repr

/-- The kind of an argument before options end. A dash alone is a word. -/
def Argument.ofString (text : String) : Argument :=
  match text.toList with
  | ['-', '-'] => .terminator
  | '-' :: '-' :: option =>
    let name := String.ofList (option.takeWhile (· != '='))
    match option.dropWhile (· != '=') with
    | [] => .long name none
    | _ :: value => .long name (some (String.ofList value))
  | '-' :: letter :: more => .short (letter :: more)
  | _ => .word text

/-- Whether an argument is a word, and so may be the value of the option before it. -/
def Argument.isWord : Argument → Bool
  | .word _ => true
  | _ => false

/-- What options have set so far. -/
structure Settings where
  configName : Option String
  slots : Option Nat
  width : Option Binary32
  height : Option Binary32
  depth : Option Binary32
  asJson : Bool
  save : Bool
  deriving DecidableEq, Repr

namespace Settings

def empty : Settings := ⟨none, none, none, none, none, false, false⟩

/-- A slot or a number of slots, with a sign or not, that fits in 32 bits. -/
def slotNumber? (text : String) : Option Nat :=
  match text.toList with
  | '+' :: digits => (Decimal.digits? digits).filter (· < 0x100000000)
  | '-' :: digits => (Decimal.digits? digits).filter (· == 0)
  | digits => (Decimal.digits? digits).filter (· < 0x100000000)

/-- Gives an option its value. It takes only one, and only of its kind. -/
def set? (settings : Settings) (name value : String) : Option Settings :=
  match name with
  | "config" =>
    if settings.configName.isNone && !value.isEmpty then
      some { settings with configName := some value }
    else none
  | "images" =>
    if settings.slots.isNone then
      (slotNumber? value).map fun n => { settings with slots := some n }
    else none
  | "width" =>
    if settings.width.isNone then
      (Binary32.parse? value).map fun x => { settings with width := some x }
    else none
  | "height" =>
    if settings.height.isNone then
      (Binary32.parse? value).map fun x => { settings with height := some x }
    else none
  | "depth" =>
    if settings.depth.isNone then
      (Binary32.parse? value).map fun x => { settings with depth := some x }
    else none
  | _ => none

/-- Sets a flag, which is set only once. -/
def raise? (settings : Settings) : String → Option Settings
  | "json" => if settings.asJson then none else some { settings with asJson := true }
  | "write" => if settings.save then none else some { settings with save := true }
  | _ => none

/-- The sizes that are set; the others are zero. -/
def sizes (settings : Settings) : Sizes :=
  ⟨settings.width.getD .zero, settings.height.getD .zero, settings.depth.getD .zero⟩

end Settings

/-- The arguments that a command takes. -/
structure Signature where
  /-- Options with a value, besides those of all commands. -/
  options : List String
  flags : List String
  /-- The command that settings and words make. -/
  command? : Settings → List String → Option Command

namespace Signature

/-- The options of all commands. -/
def sharedOptions : List String := ["config", "images"]

/-- The signature of a command by its name. -/
def find? : String → Option Signature
  | "compile" => some ⟨[], ["json"], fun settings words =>
    match words with
    | [formula] => some (.compile formula settings.asJson)
    | _ => none⟩
  | "check" => some ⟨[], [], fun _ words =>
    match words with
    | [formula] => some (.check formula)
    | _ => none⟩
  | "eval" => some ⟨["width", "height", "depth"], [], fun settings words =>
    match words with
    | [formula] => some (.eval formula settings.sizes)
    | _ => none⟩
  | "tree" => some ⟨[], ["json"], fun settings words =>
    match words with
    | [formula] => some (.tree formula settings.asJson)
    | _ => none⟩
  | "tokens" => some ⟨[], [], fun _ words =>
    match words with
    | [formula] => some (.tokens formula)
    | _ => none⟩
  | "replace-image" => some ⟨[], [], fun _ words =>
    match words with
    | [formula, old, new] =>
      match Settings.slotNumber? old, Settings.slotNumber? new with
      | some old, some new => some (.renameImage formula old new)
      | _, _ => none
    | _ => none⟩
  | "prelude" => some ⟨[], [], fun _ words => if words.isEmpty then some .prelude else none⟩
  | "config" => some ⟨[], ["write"], fun settings words =>
    if words.isEmpty then some (.config settings.save) else none⟩
  | _ => none

/-- Reads the arguments after the name of a command, from the words and settings so far. -/
def read (signature : Signature) (settings : Settings) (words : List String) :
    List String → Option (Settings × List String)
  | [] => some (settings, words)
  | argument :: more =>
    match Argument.ofString argument with
    | .terminator => some (settings, words ++ more)
    | .word text => signature.read settings (words ++ [text]) more
    | .short _ => none
    | .long name (some value) =>
      if (sharedOptions ++ signature.options).contains name then
        match settings.set? name value with
        | some settings => signature.read settings words more
        | none => none
      else none
    | .long name none =>
      if signature.flags.contains name then
        match settings.raise? name with
        | some settings => signature.read settings words more
        | none => none
      else if (sharedOptions ++ signature.options).contains name then
        match more with
        | [] => none
        | value :: more =>
          if (Argument.ofString value).isWord then
            match settings.set? name value with
            | some settings => signature.read settings words more
            | none => none
          else none
      else none

end Signature

namespace Request

/-- The request that a command makes with the settings before its name. What stands after the name
wins. -/
def ofCommand (before : Settings) (name : String) (arguments : List String) : Request :=
  match Signature.find? name with
  | none => .misuse
  | some signature =>
    match signature.read .empty [] arguments with
    | none => .misuse
    | some (settings, words) =>
      match signature.command? settings words with
      | none => .misuse
      | some command =>
        .invocation
          ⟨settings.configName.or before.configName, settings.slots.or before.slots, command⟩

/-- Reads the arguments before the name of a command. -/
def read (settings : Settings) : List String → Request
  | [] => .misuse
  | argument :: more =>
    match Argument.ofString argument with
    | .terminator => .misuse
    | .word name => ofCommand settings name more
    | .short letters => if letters.head? = some 'V' then .version else .misuse
    | .long name (some value) =>
      if Signature.sharedOptions.contains name then
        match settings.set? name value with
        | some settings => read settings more
        | none => .misuse
      else .misuse
    | .long name none =>
      if name = "version" then .version
      else if Signature.sharedOptions.contains name then
        match more with
        | [] => .misuse
        | value :: more =>
          if (Argument.ofString value).isWord then
            match settings.set? name value with
            | some settings => read settings more
            | none => .misuse
          else .misuse
      else .misuse

/-- What a command line asks for. -/
def ofArguments (arguments : List String) : Request := read .empty arguments

end Request

end ImageFormula
