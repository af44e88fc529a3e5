import ImageFormula.Rule.Engine
import Mathlib.Data.List.TakeDrop

/-!
# Numbers in place of images

`Expr.fill` puts a number in place of every image of a tree. Rules look at the classes of tokens and
reducers only move their values, so images may be filled in before a run or after it: the tree is
the same, and so is the fault if there is none (`Engine.run_fill`). Each function of the engine has
one equation to this effect, from the matching of a pattern up to the run.
-/

namespace ImageFormula

/-! ## Trees and tokens -/

/-- The tree with a number in place of every image. -/
def Expr.fill (values : Nat → Binary32) : Expr → Expr
  | number value => number value
  | image slot => number (values slot)
  | binary lhs op rhs => binary (lhs.fill values) op (rhs.fill values)
  | intrinsic name span => intrinsic name span
  | unary name arg span => unary name (arg.fill values) span
  | binaryCall name first second span =>
    binaryCall name (first.fill values) (second.fill values) span
  | tertiary name first second third span =>
    tertiary name (first.fill values) (second.fill values) (third.fill values) span

def TokenKind.fill (values : Nat → Binary32) : TokenKind → TokenKind
  | value expr => value (expr.fill values)
  | operator op => operator op
  | bracketOpen => bracketOpen
  | bracketClose => bracketClose
  | separator => separator
  | functionStart name => functionStart name

/-- The token with a number in place of every image of its value. -/
def Token.fill (values : Nat → Binary32) (token : Token) : Token :=
  { token with kind := token.kind.fill values }

variable {values : Nat → Binary32}

theorem Expr.call?_fill (name : String) (span : Span) (args : List Expr) :
    Expr.call? name span (args.map (fill values)) =
      (Expr.call? name span args).map (fill values) := by
  rcases args with _ | ⟨_, _ | ⟨_, _ | ⟨_, _ | ⟨_, _⟩⟩⟩⟩ <;> rfl

namespace Token

@[simp] theorem span_fill (token : Token) : (token.fill values).span = token.span := rfl

@[simp] theorem depth_fill (token : Token) : (token.fill values).depth = token.depth := rfl

@[simp] theorem kind_fill (token : Token) : (token.fill values).kind = token.kind.fill values := rfl

@[simp] theorem tokenClass_fill (token : Token) :
    (token.fill values).tokenClass = token.tokenClass := by
  unfold tokenClass
  rw [kind_fill]
  cases token.kind <;> rfl

@[simp] theorem isOpener_fill (token : Token) : (token.fill values).isOpener = token.isOpener := by
  unfold isOpener
  rw [kind_fill]
  cases token.kind <;> rfl

@[simp] theorem isCloser_fill (token : Token) : (token.fill values).isCloser = token.isCloser := by
  unfold isCloser
  rw [kind_fill]
  cases token.kind <;> rfl

theorem hull?_fill (tokens : List Token) : hull? (tokens.map (fill values)) = hull? tokens := by
  simp [hull?, Function.comp_def]

end Token

/-! ## Reducers -/

namespace Reducer

theorem operandDepth_fill (tokens : List Token) :
    operandDepth (tokens.map (Token.fill values)) = operandDepth tokens := by
  simp [operandDepth, Function.comp_def]

theorem valueOf_fill (tokens : List Token) (expr : Expr) (depth : Nat) :
    valueOf (tokens.map (Token.fill values)) (expr.fill values) depth =
      (valueOf tokens expr depth).fill values := by
  simp [valueOf, Token.hull?_fill, Token.fill, TokenKind.fill]

theorem kinds_fill (tokens : List Token) :
    (tokens.map (Token.fill values)).map Token.kind =
      (tokens.map Token.kind).map (TokenKind.fill values) := by
  simp [Function.comp_def]

theorem arguments?_fill (tokens : List Token) :
    arguments? (tokens.map (Token.fill values)) =
      (arguments? tokens).map (List.map (Expr.fill values)) := by
  induction tokens with
  | nil => rfl
  | cons token tokens ih =>
      rw [List.map_cons, arguments?, arguments?, Token.kind_fill, ih]
      cases token.kind with
      | value expr => cases arguments? tokens <;> rfl
      | operator | bracketOpen | bracketClose | separator | functionStart => rfl

theorem operator?_fill (tokens : List Token) :
    operator? (tokens.map (Token.fill values)) = (operator? tokens).map (Token.fill values) := by
  unfold operator?
  rw [kinds_fill, operandDepth_fill]
  rcases tokens.map Token.kind with _ | ⟨first, _ | ⟨second, _ | ⟨third, _ | ⟨_, _⟩⟩⟩⟩
  case cons.cons.cons.nil =>
    cases first <;> try rfl
    cases second <;> try rfl
    cases third <;> try rfl
    rename_i lhs op rhs
    exact congrArg some (valueOf_fill tokens (.binary lhs op rhs) _)
  all_goals simp

theorem sign?_fill (tokens : List Token) :
    sign? (tokens.map (Token.fill values)) = (sign? tokens).map (Token.fill values) := by
  unfold sign?
  rw [kinds_fill, operandDepth_fill]
  rcases tokens.map Token.kind with _ | ⟨first, _ | ⟨second, _ | ⟨_, _⟩⟩⟩
  case cons.cons.nil =>
    cases first <;> try rfl
    rename_i op
    cases op <;> try rfl
    all_goals
      cases second <;> try rfl
      rename_i expr
    · exact congrArg some (valueOf_fill tokens expr _)
    · exact congrArg some (valueOf_fill tokens expr.negate _)
  all_goals simp

theorem brackets?_fill (tokens : List Token) :
    brackets? (tokens.map (Token.fill values)) = (brackets? tokens).map (Token.fill values) := by
  unfold brackets?
  rw [kinds_fill, operandDepth_fill]
  rcases tokens.map Token.kind with _ | ⟨first, _ | ⟨second, _ | ⟨third, _ | ⟨_, _⟩⟩⟩⟩
  case cons.cons.cons.nil =>
    cases first <;> try rfl
    cases second <;> try rfl
    cases third <;> try rfl
    rename_i expr
    exact congrArg some (valueOf_fill tokens expr _)
  all_goals simp

theorem call?_fill (tokens : List Token) :
    call? (tokens.map (Token.fill values)) = (call? tokens).map (Token.fill values) := by
  cases tokens with
  | nil => rfl
  | cons opener rest =>
      rw [List.map_cons, call?, call?, Token.kind_fill, arguments?_fill, ← List.map_cons,
        operandDepth_fill]
      cases opener.kind with
      | functionStart name =>
          cases arguments? rest with
          | none => rfl
          | some args =>
              simp only [TokenKind.fill, Option.map_some, Expr.call?_fill, Token.span_fill,
                Option.map_map]
              congr 1
              funext expr
              exact valueOf_fill (opener :: rest) expr _
      | value | operator | bracketOpen | bracketClose | separator => rfl

/-- A reducer takes filled tokens to the filled value, or refuses both. -/
theorem apply_fill (reducer : Reducer) (tokens : List Token) :
    reducer.apply (tokens.map (Token.fill values)) =
      (reducer.apply tokens).map (Token.fill values) := by
  have reduced : reducer.reduce? (tokens.map (Token.fill values)) =
      (reducer.reduce? tokens).map (Token.fill values) := by
    cases reducer with
    | operator => exact operator?_fill tokens
    | sign => exact sign?_fill tokens
    | brackets => exact brackets?_fill tokens
    | call => exact call?_fill tokens
  rw [apply, apply, reduced, Token.hull?_fill]
  cases reducer.reduce? tokens <;> rfl

end Reducer

/-! ## Matches -/

namespace Rule

theorem leftAllows_fill (rule : Rule) (left : Option Token) :
    rule.leftAllows (left.map (Token.fill values)) = rule.leftAllows left := by
  unfold leftAllows
  cases rule.left <;> cases left <;> simp

theorem matchesPattern_fill (pattern : List TokenClass) (tokens : List Token) :
    matchesPattern pattern (tokens.map (Token.fill values)) = matchesPattern pattern tokens := by
  induction pattern generalizing tokens with
  | nil => rfl
  | cons expected pattern ih =>
      cases tokens with
      | nil => rfl
      | cons token tokens => simp [matchesPattern, ih]

/-- The match with a number in place of every image. -/
def Match.fill (values : Nat → Binary32) (found : Match) : Match :=
  ⟨found.before.map (Token.fill values), found.matched.map (Token.fill values),
    found.after.map (Token.fill values)⟩

/-- A rule matches filled tokens where it matches the tokens. -/
theorem matchFrom?_fill (rule : Rule) (left : Option Token) (tokens : List Token) :
    rule.matchFrom? (left.map (Token.fill values)) (tokens.map (Token.fill values)) =
      (rule.matchFrom? left tokens).map (Match.fill values) := by
  induction tokens generalizing left with
  | nil =>
      rw [matchFrom?.eq_def, matchFrom?.eq_def rule left, leftAllows_fill, matchesPattern_fill]
      split
      · simp [Match.fill]
      · rfl
  | cons token tokens ih =>
      rw [matchFrom?.eq_def, matchFrom?.eq_def rule left, leftAllows_fill, matchesPattern_fill]
      split
      · simp [Match.fill, List.map_take, List.map_drop]
      · have later := ih (some token)
        rw [Option.map_some] at later
        simp only [List.map_cons, later]
        cases rule.matchFrom? (some token) tokens <;> rfl

end Rule

/-! ## The engine -/

namespace Engine

theorem firstMatch?_fill (tokens : List Token) (rules : List Rule) :
    firstMatch? (tokens.map (Token.fill values)) rules =
      (firstMatch? tokens rules).map fun (rule, found) => (rule, found.fill values) := by
  induction rules with
  | nil => rfl
  | cons rule rules ih =>
      have matched : rule.match? (tokens.map (Token.fill values)) =
          (rule.match? tokens).map (Rule.Match.fill values) := rule.matchFrom?_fill none tokens
      rw [firstMatch?, firstMatch?, matched]
      cases rule.match? tokens with
      | none => exact ih
      | some found => rfl

theorem resolve_fill (engine : Engine) (tokens : List Token) :
    engine.resolve (tokens.map (Token.fill values)) =
      (engine.resolve tokens).map (List.map (Token.fill values)) := by
  fun_induction engine.resolve tokens with
  | case1 tokens absent =>
      rw [resolve, firstMatch?_fill, absent]
      rfl
  | case2 tokens rule found first fault failed =>
      rw [resolve, firstMatch?_fill, first]
      simp [Rule.Match.fill, Reducer.apply_fill, failed, Except.map]
  | case3 tokens rule found first value applied shrinks deep =>
      rw [resolve, firstMatch?_fill, first]
      rw [List.length_append, List.length_cons] at shrinks
      simp [Rule.Match.fill, Reducer.apply_fill, applied, Except.map, shrinks, deep]
  | case4 tokens rule found first value applied shrinks shallow ih =>
      rw [resolve, firstMatch?_fill, first]
      rw [List.map_append, List.map_cons] at ih
      rw [List.length_append, List.length_cons] at shrinks
      simp [Rule.Match.fill, Reducer.apply_fill, applied, Except.map, shrinks, shallow, ih]
  | case5 tokens rule found first value applied grows =>
      rw [resolve, firstMatch?_fill, first]
      rw [List.length_append, List.length_cons] at grows
      simp [Rule.Match.fill, Reducer.apply_fill, applied, Except.map, grows]

theorem resolveGroup_fill (engine : Engine) (group : List Token) :
    engine.resolveGroup (group.map (Token.fill values)) =
      (engine.resolveGroup group).map (Token.fill values) := by
  rw [resolveGroup, resolveGroup, resolve_fill, Token.hull?_fill]
  rcases engine.resolve group with fault | (_ | ⟨token, _ | ⟨next, tokens⟩⟩)
  · rfl
  · rfl
  · rfl
  · simp only [Except.map, List.map_cons]
    rw [← List.map_cons, ← List.map_cons, Token.hull?_fill]

theorem checkBrackets_fill (opened : List Span) (tokens : List Token) :
    checkBrackets opened (tokens.map (Token.fill values)) = checkBrackets opened tokens := by
  induction tokens generalizing opened with
  | nil => rfl
  | cons token tokens ih =>
      cases opened <;> simp only [List.map_cons, checkBrackets, Token.isOpener_fill,
        Token.isCloser_fill, Token.span_fill, ih]

theorem resolveGroups_fill (engine : Engine) (tokens : List Token) :
    engine.resolveGroups (tokens.map (Token.fill values)) =
      (engine.resolveGroups tokens).map (List.map (Token.fill values)) := by
  induction tokens with
  | nil => rfl
  | cons token tokens ih =>
      rw [List.map_cons, resolveGroups, resolveGroups, ih]
      cases engine.resolveGroups tokens with
      | error fault => rfl
      | ok rest =>
          have cut : (fun next : Token => !next.isCloser) ∘ Token.fill values =
              fun next => !next.isCloser := by
            funext next
            simp
          simp only [Except.map, Token.isOpener_fill, List.span_eq_takeWhile_dropWhile,
            List.takeWhile_map, List.dropWhile_map, cut, ← List.map_take, ← List.map_drop,
            ← List.map_cons, ← List.map_append, resolveGroup_fill]
          cases token.isOpener with
          | false => rfl
          | true =>
              rw [if_pos rfl, if_pos rfl]
              cases engine.resolveGroup _ <;> rfl

theorem rootOf_fill (token : Token) :
    rootOf (token.fill values) = (rootOf token).map (Expr.fill values) := by
  rw [rootOf, rootOf, Token.kind_fill, Token.span_fill]
  cases token.kind <;> rfl

/-- A run over filled tokens ends in the filled tree, or in the same fault. -/
theorem run_fill (engine : Engine) (tokens : List Token) :
    engine.run (tokens.map (Token.fill values)) =
      (engine.run tokens).map (Expr.fill values) := by
  rw [run, run, checkBrackets_fill, resolveGroups_fill]
  cases checkBrackets [] tokens with
  | error fault => rfl
  | ok _ =>
      rcases engine.resolveGroups tokens with fault | (_ | ⟨token, _ | ⟨next, tokens⟩⟩)
      · rfl
      · rfl
      · exact rootOf_fill token
      · show (engine.resolveGroup ((token :: next :: tokens).map (Token.fill values)) >>=
            rootOf) =
          (engine.resolveGroup (token :: next :: tokens) >>= rootOf).map (Expr.fill values)
        rw [resolveGroup_fill]
        cases engine.resolveGroup (token :: next :: tokens) with
        | error fault => rfl
        | ok value => exact rootOf_fill value

end Engine

end ImageFormula
