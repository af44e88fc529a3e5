import ImageFormula.Command.Arguments
import ImageFormula.Command.Folder
import ImageFormula.Command.Report
import ImageFormula.Config
import ImageFormula.Equation
import ImageFormula.Expr.Json
import ImageFormula.Prelude
import ImageFormula.SizeFormula

/-! Carrying out a command line. -/

namespace ImageFormula

/-- The file of settings that is read where none is named. -/
def Config.fileName : String := "pixeq.toml"

/-- The version, as it is printed. -/
def versionLine : String := "pixeq 0.1.0\n"

/-! ## What commands print -/

/-- A slot or null. -/
def Json.slot : Option Nat → Json
  | some slot => .natural slot
  | none => .null

/-- An expression with its usage of images. -/
def Usage.json (usage : Usage) (expression : String) : Json :=
  .object [("expression", .string expression), ("first_image_id", .slot usage.first),
    ("image_ids", .array (usage.slots.map .natural)), ("max_image_id", .slot usage.greatest),
    ("min_image_id", .slot usage.least)]

/-- The line on images in a check. -/
def Usage.summary (usage : Usage) : String :=
  match usage.least, usage.greatest with
  | some least, some greatest =>
    "  images: I" ++ toString least ++ "..I" ++ toString greatest ++ " (" ++
      toString usage.slots.length ++ " used)\n"
  | _, _ => "  images: none\n"

/-- A text with blanks after it, up to a width. -/
def padded (width : Nat) (text : String) : String :=
  text ++ String.ofList (List.replicate (width - text.length) ' ')

/-- The line of a token in a listing. -/
def Token.line (token : Token) : String :=
  padded 8 token.span.text ++ " " ++ token.tokenClass.label ++ " " ++ token.kind.text ++ "\n"

namespace Limits

def runCompile (limits : Limits) (formula : String) (asJson : Bool) : Outcome :=
  .ofResult formula
    (fun (usage, expression) =>
      (if asJson then (Usage.json usage expression).pretty else expression) ++ "\n")
    ((limits.compile formula).bind fun equation =>
      equation.shader.map fun expression => (equation.usage, expression))

/-- Checks a formula in two steps; a failure of the second leaves what the first printed. -/
def runCheck (limits : Limits) (formula : String) : Outcome :=
  let structureLine := "✓ structure OK\n"
  match limits.compile formula with
  | .error fault => .failed "" (.ofFormula formula fault)
  | .ok equation =>
    match equation.validate with
    | .error fault => .failed structureLine (.ofFormula formula fault)
    | .ok () => .done (structureLine ++ "✓ functions OK\n" ++ equation.usage.summary)

def runTree (limits : Limits) (formula : String) (asJson : Bool) : Outcome :=
  .ofResult formula
    (fun equation => (if asJson then equation.root.json.pretty else equation.format) ++ "\n")
    (limits.compile formula)

def runTokens (limits : Limits) (formula : String) : Outcome :=
  .ofResult formula (fun tokens => String.join (tokens.map Token.line))
    (limits.scope.tokens formula).1

end Limits

/-! ## Commands and files -/

namespace Invocation

/-- The path of the file of settings. -/
def path (invocation : Invocation) : String := invocation.configName.getD Config.fileName

/-- What is tried when settings are read. -/
def loadContext (invocation : Invocation) : String :=
  match invocation.configName with
  | some name => "failed to load config: " ++ name
  | none => "failed to load " ++ Config.fileName

/-- The settings for a command, from the contents of their file. A file that is named must be there,
and slots that are given win. -/
def load (invocation : Invocation) (found : Except FileError String) : Except Fault Config :=
  let loaded := match found with
    | .ok contents => Config.parse contents
    | .error cause =>
      if invocation.configName.isSome then .error (.file cause.reason) else .ok Config.default
  loaded.map fun config =>
    { config with limits.slots := invocation.slots.getD config.limits.slots }

/-- How a command ends under its settings. -/
def outcome (invocation : Invocation) (config : Config) : Outcome :=
  match invocation.command with
  | .compile formula asJson => config.limits.runCompile formula asJson
  | .check formula => config.limits.runCheck formula
  | .eval formula sizes =>
    .ofResult formula (fun value => value.text ++ "\n")
      ((SizeFormula.parse formula).bind fun parsed => parsed.evaluate sizes)
  | .tree formula asJson => config.limits.runTree formula asJson
  | .tokens formula => config.limits.runTokens formula
  | .renameImage formula old new =>
    .ofResult formula (· ++ "\n") (ImageFormula.renameImage formula old new)
  | .prelude => .done (Prelude.getters config.limits.slots ++ Prelude.helpers)
  | .config false => .done config.text
  | .config true => .done ("wrote " ++ invocation.path ++ "\n")

/-- What a command writes to the file of settings. -/
def saved? (invocation : Invocation) (config : Config) : Option String :=
  match invocation.command with
  | .config true => some config.text
  | _ => none

end Invocation

namespace Request

/-- The path of the file that a request reads and perhaps writes. -/
def path? : Request → Option String
  | .invocation asked => some asked.path
  | .version | .misuse => none

/-- Carries out a request, given what its path leads to: how it ends, and what it writes there. -/
def run (request : Request) (found : Except FileError String) : Outcome × Option String :=
  match request with
  | .misuse => (.misused, none)
  | .version => (.done versionLine, none)
  | .invocation asked =>
    match asked.load found with
    | .error fault => (.failed "" (.ofFault asked.loadContext fault), none)
    | .ok config => (asked.outcome config, asked.saved? config)

end Request

namespace Folder

/-- Carries out a command line in a folder. -/
def run (folder : Folder) (arguments : List String) : Outcome × Folder :=
  let request := Request.ofArguments arguments
  let path := request.path?.getD ""
  match request.run (folder.read path) with
  | (outcome, none) => (outcome, folder)
  | (outcome, some contents) => (outcome, folder.write path contents)

/-- What a command line does under the settings that it finds. -/
theorem run_of_load {folder : Folder} {arguments : List String} {asked : Invocation}
    {config : Config} (request : Request.ofArguments arguments = .invocation asked)
    (loaded : asked.load (folder.read asked.path) = .ok config) :
    folder.run arguments = (asked.outcome config,
      (asked.saved? config).elim folder (folder.write asked.path)) := by
  simp only [run, request, Request.path?, Option.getD_some, Request.run, loaded]
  cases asked.saved? config <;> rfl

/-- Carries out command lines one after the other. -/
def runAll (folder : Folder) : List (List String) → List Outcome × Folder
  | [] => ([], folder)
  | arguments :: more =>
    let (outcome, after) := folder.run arguments
    let (outcomes, last) := after.runAll more
    (outcome :: outcomes, last)

end Folder

end ImageFormula
