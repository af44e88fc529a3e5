import ImageFormula.Equation

/-! Editing sessions: a formula and its limits, changed step by step. -/

namespace ImageFormula

/-- The state of a session. -/
structure Session where
  formula : String
  limits : Limits
  deriving DecidableEq, Repr

/-- What can be done in a session. -/
inductive Action where
  | set (formula : String)
  | limit (limits : Limits)
  | rename (old new : Nat)
  | reformat
  | shader
  | usage
  | fold
  deriving DecidableEq, Repr

/-- What an action answers. -/
inductive Reply where
  | text (text : String)
  | limits (limits : Limits)
  | usage (usage : Usage)
  | number (value : Binary32)
  | fault (fault : Fault)
  deriving DecidableEq, Repr

namespace Session

/-- Makes a text the formula, and answers it; a fault leaves the session as it was. -/
def adopt (session : Session) : Except Fault String → Reply × Session
  | .ok text => (.text text, { session with formula := text })
  | .error fault => (.fault fault, session)

/-- Answers a question about the equation of the formula. -/
def ask {α : Type} (session : Session) (question : Equation → Except Fault α) (reply : α → Reply) :
    Reply × Session :=
  match session.limits.compile session.formula with
  | .error fault => (.fault fault, session)
  | .ok equation =>
    match question equation with
    | .error fault => (.fault fault, session)
    | .ok answer => (reply answer, session)

/-- One step of a session. -/
def perform (session : Session) : Action → Reply × Session
  | .set formula => session.adopt (.ok formula)
  | .limit limits => (.limits limits, { session with limits := limits })
  | .rename old new => session.adopt (renameImage session.formula old new)
  | .reformat => session.adopt ((session.limits.compile session.formula).map Equation.format)
  | .shader => session.ask Equation.shader .text
  | .usage => session.ask (fun equation => .ok equation.usage) .usage
  | .fold => session.ask Equation.fold .number

/-- The replies to a list of actions, in order. -/
def performAll (session : Session) : List Action → List Reply
  | [] => []
  | action :: more =>
    let (reply, after) := session.perform action
    reply :: after.performAll more

end Session

end ImageFormula
