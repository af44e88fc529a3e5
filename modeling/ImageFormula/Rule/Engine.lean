import ImageFormula.Rule.Standard

/-! Reduction of token sequences by rules.

`Engine.resolve` applies the first rule that matches anywhere, at its leftmost match, until no rule
matches. `Engine.run` does so group by group, the group of the last opener first, until one value
is left. -/

namespace ImageFormula

/-- Rules in the order of their priority, and the greatest depth of a tree. -/
structure Engine where
  rules : List Rule
  maxDepth : Nat

namespace Engine

/-- The first of a list of rules that matches somewhere, with its leftmost match. -/
def firstMatch? (tokens : List Token) : List Rule → Option (Rule × Rule.Match)
  | [] => none
  | rule :: rules =>
    match rule.match? tokens with
    | some found => some (rule, found)
    | none => firstMatch? tokens rules

/-- Reduces until no rule matches, without regard to brackets. A rule that takes no more tokens
than it puts would never end, and is refused. -/
def resolve (engine : Engine) (tokens : List Token) : Except Fault (List Token) :=
  match firstMatch? tokens engine.rules with
  | none => .ok tokens
  | some (rule, found) =>
    match rule.reducer.apply found.matched with
    | .error fault => .error fault
    | .ok value =>
      if _shrinks : (found.before ++ value :: found.after).length < tokens.length then
        if engine.maxDepth < value.depth then
          .error (.unresolvable (.tooDeep engine.maxDepth) (some value.span))
        else engine.resolve (found.before ++ value :: found.after)
      else .error (.unresolvable (.notShrunk rule.name) (some value.span))
termination_by tokens.length
decreasing_by exact _shrinks

/-- Reduces a group to a single token. -/
def resolveGroup (engine : Engine) (group : List Token) : Except Fault Token :=
  match engine.resolve group with
  | .error fault => .error fault
  | .ok [token] => .ok token
  | .ok tokens =>
    .error (.unresolvable .leftover (Token.hull? tokens <|> Token.hull? group))

/-- Checks that closers and openers match; `opened` are the places of the openers still open, the
last one first. -/
def checkBrackets : List Span → List Token → Except Fault Unit
  | [], [] => .ok ()
  | last :: _, [] => .error (.unresolvable .unclosed (some last))
  | opened, token :: rest =>
    if token.isOpener then checkBrackets (token.span :: opened) rest
    else if token.isCloser then
      match opened with
      | [] => .error (.unresolvable .extraCloser (some token.span))
      | _ :: outer => checkBrackets outer rest
    else checkBrackets opened rest

/-- Reduces every group to a value, the group of the last opener first: when an opener is reached
from the right, the groups inside it are values already, and its group ends at the next closer. -/
def resolveGroups (engine : Engine) : List Token → Except Fault (List Token)
  | [] => .ok []
  | token :: rest =>
    match engine.resolveGroups rest with
    | .error fault => .error fault
    | .ok rest =>
      if token.isOpener then
        let (inside, ending) := rest.span fun next => !next.isCloser
        match engine.resolveGroup (token :: inside ++ ending.take 1) with
        | .error fault => .error fault
        | .ok value => .ok (value :: ending.drop 1)
      else .ok (token :: rest)

/-- The expression that a single token carries. -/
def rootOf (token : Token) : Except Fault Expr :=
  match token.kind with
  | .value expr => .ok expr
  | _ => .error (.unresolvable .notAValue (some token.span))

/-- Reduces a token sequence to its root expression. -/
def run (engine : Engine) (tokens : List Token) : Except Fault Expr := do
  checkBrackets [] tokens
  match ← engine.resolveGroups tokens with
  | [] => .error .emptyFormula
  | [token] => rootOf token
  | tokens => rootOf (← engine.resolveGroup tokens)

/-- The engine of formulas. -/
def standard (maxDepth : Nat) : Engine := ⟨Rule.standard, maxDepth⟩

end Engine

end ImageFormula
