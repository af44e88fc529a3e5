import ImageFormula.Fault

/-! How a command ends, and what it says when it fails. -/

namespace ImageFormula

/-- A failure: what was tried, and why it failed, the nearest cause first. -/
structure Report where
  context : String
  causes : List String
  deriving DecidableEq, Repr

namespace Report

/-- The causes, each on a line of its own, with their numbers if there are several. -/
def causeLines : List String → List String
  | [cause] => ["    " ++ cause ++ "\n"]
  | causes => causes.zipIdx.map fun (cause, number) =>
    "    " ++ toString number ++ ": " ++ cause ++ "\n"

def text (report : Report) : String :=
  "Error: " ++ report.context ++ "\n\nCaused by:\n" ++ String.join (causeLines report.causes)

/-- The report on a fault. The fault of a file has the cause that the system gives below it. -/
def ofFault (context : String) (fault : Fault) : Report :=
  match fault with
  | .file reason => ⟨context, [fault.message, reason]⟩
  | _ => ⟨context, [fault.message]⟩

/-- Blanks up to a place, and a mark below each of its characters, one at least. -/
def marker (span : Span) : String :=
  String.ofList (List.replicate span.start ' ' ++ List.replicate (max span.length 1) '^')

/-- The report on a formula, with its offending part marked. -/
def ofFormula (formula : String) (fault : Fault) : Report :=
  match fault.span? with
  | none => ofFault ("invalid formula: " ++ formula) fault
  | some span => ofFault ("invalid formula:\n  " ++ formula ++ "\n  " ++ marker span) fault

end Report

/-- How a command line ends, with what it printed. -/
inductive Outcome where
  | done (printed : String)
  | failed (printed : String) (report : Report)
  | misused
  deriving DecidableEq, Repr

namespace Outcome

/-- The status that a process ends with. -/
def exitCode : Outcome → Nat
  | done _ => 0
  | failed _ _ => 1
  | misused => 2

def printed : Outcome → String
  | done text | failed text _ => text
  | misused => ""

/-- What is said about a failure. -/
def errors : Outcome → String
  | done _ => ""
  | failed _ report => report.text
  | misused => "usage: pixeq [--config FILE] [--images COUNT] COMMAND [ARGUMENT]...\n"

/-- What the result of a formula prints, or the report on its fault. -/
def ofResult {α : Type} (formula : String) (print : α → String) : Except Fault α → Outcome
  | .ok a => done (print a)
  | .error fault => failed "" (.ofFormula formula fault)

end Outcome

end ImageFormula
