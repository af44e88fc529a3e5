import ImageFormula.Command.Run

/-! The command line: reads the file of settings, carries out the command, and prints. -/

namespace ImageFormula

/-- The error of a path that leads to no file. The system gives its number with either sign. -/
def FileError.ofSystem? : IO.Error → Option FileError
  | .noFileOrDirectory _ number _ | .inappropriateType _ number _ | .invalidArgument _ number _ =>
    ofCode? (min number (-number)).toNat
  | _ => none

/-- The contents of a file, or why the path leads to none. A file that is there and cannot be read
ends the program. -/
def readContents (path : String) : IO (Except FileError String) := do
  try
    return .ok (← IO.FS.readFile path)
  catch failure =>
    match FileError.ofSystem? failure with
    | some error => return .error error
    | none => throw failure

end ImageFormula

open ImageFormula

def main (arguments : List String) : IO UInt32 := do
  let request := Request.ofArguments arguments
  let path := request.path?.getD ""
  let (outcome, saved) := request.run (← readContents path)
  if let some contents := saved then IO.FS.writeFile path contents
  IO.print outcome.printed
  IO.eprint outcome.errors
  return UInt32.ofNat outcome.exitCode
