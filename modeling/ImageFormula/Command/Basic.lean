import ImageFormula.Scope

/-! What a command line asks for. -/

namespace ImageFormula

/-- The commands, with what each is given. -/
inductive Command where
  | compile (formula : String) (asJson : Bool)
  | check (formula : String)
  | eval (formula : String) (sizes : Sizes)
  | tree (formula : String) (asJson : Bool)
  | tokens (formula : String)
  | renameImage (formula : String) (old new : Nat)
  | prelude
  | config (save : Bool)
  deriving DecidableEq, Repr

/-- A command with the settings that hold for it. -/
structure Invocation where
  /-- The file of settings, if one is named. -/
  configName : Option String
  /-- The number of image slots, if one is given. -/
  slots : Option Nat
  command : Command
  deriving DecidableEq, Repr

/-- What a command line asks for. -/
inductive Request where
  | invocation (asked : Invocation)
  | version
  /-- The arguments make no command. -/
  | misuse
  deriving DecidableEq, Repr

end ImageFormula
