import ImageFormula.Scope
import ImageFormula.Token.Basic
import ImageFormula.Token.Lexeme

/-! Tokens of a formula: its lexemes, with every word looked up in a scope. -/

namespace ImageFormula

namespace Lexeme

/-- The token of one lexeme, and the scope after it. -/
def token (lexeme : Lexeme) (scope : Scope) : Except Fault Token × Scope :=
  let plain := fun (kind : TokenKind) => (.ok (Token.ofKind kind lexeme.span), scope)
  match lexeme.kind with
  | .word text =>
    match scope.readWord text lexeme.span with
    | (.ok expr, after) => (.ok (Token.ofKind (.value expr) lexeme.span), after)
    | (.error fault, after) => (.error fault, after)
  | .operator op => plain (.operator op)
  | .bracketOpen => plain .bracketOpen
  | .bracketClose => plain .bracketClose
  | .separator => plain .separator
  | .functionStart name => plain (.functionStart name)

/-- The tokens of a list of lexemes up to the first fault, and the scope at that point. -/
def tokens : List Lexeme → Scope → Except Fault (List Token) × Scope
  | [], scope => (.ok [], scope)
  | lexeme :: more, scope =>
    match lexeme.token scope with
    | (.error fault, after) => (.error fault, after)
    | (.ok first, after) =>
      match tokens more after with
      | (.error fault, final) => (.error fault, final)
      | (.ok rest, final) => (.ok (first :: rest), final)

end Lexeme

/-- The tokens of a formula, and the scope after reading; a text without lexemes is no formula. -/
def Scope.tokens (scope : Scope) (text : String) : Except Fault (List Token) × Scope :=
  match Lexeme.cut text with
  | [] => (.error .emptyFormula, scope)
  | lexemes => Lexeme.tokens lexemes scope

end ImageFormula
