import Mathlib.Logic.Relation
import ImageFormula.Proofs.Brackets
import ImageFormula.Proofs.Height

/-!
# The order in which brackets are resolved

`Engine.run` takes the bracket of the last opener first. A `Strategy` may take any bracket that has
none inside it, and `Engine.runBy` runs an engine by a strategy.

* **no choice is wrong**: the value of a bracket depends on its own tokens only, so if some choices
  lead to a sequence without brackets, then every bracket has a value and the same sequence is
  reached after it (`Contracts.any`);
* **the engine is one of them**: `Engine.run` runs by `Strategy.lastOpener`, with the same faults
  (`runBy_lastOpener`).

The main statement is `Engine.runBy_eq_ok_iff_run`: all strategies find the same tree. It holds for
any rules, since nothing here looks inside a bracket.
-/

namespace ImageFormula

namespace Engine

/-! ## Strategies -/

/-- A way to choose the bracket that is resolved next. While there are brackets, and they match, one
is chosen. -/
structure Strategy where
  pick? : (tokens : List Token) → Option (InnerGroup tokens)
  complete : ∀ tokens, checkBrackets [] tokens = .ok () → pick? tokens = none → Plain tokens

/-- Resolves the brackets in the order of a strategy until there are none. -/
def resolveGroupsBy (engine : Engine) (strategy : Strategy) (tokens : List Token) :
    Except Fault (List Token) :=
  match strategy.pick? tokens with
  | none => .ok tokens
  | some bracket =>
    match engine.resolveGroup bracket.group with
    | .error fault => .error fault
    | .ok value => engine.resolveGroupsBy strategy (bracket.replaced value)
termination_by tokens.length
decreasing_by exact bracket.shorter value

/-- The expression of a sequence whose brackets are resolved. -/
def finish (engine : Engine) : List Token → Except Fault Expr
  | [] => .error .emptyFormula
  | [token] => rootOf token
  | tokens => engine.resolveGroup tokens >>= rootOf

/-- Reduces a token sequence to its root expression, the brackets in the order of a strategy. -/
def runBy (engine : Engine) (strategy : Strategy) (tokens : List Token) : Except Fault Expr := do
  checkBrackets [] tokens
  engine.finish (← engine.resolveGroupsBy strategy tokens)

/-- The bracket of the last opener. -/
def lastGroup? : (tokens : List Token) → Option (InnerGroup tokens)
  | [] => none
  | token :: rest =>
    match lastGroup? rest with
    | some bracket => some (bracket.cons token)
    | none =>
      if opens : token.isOpener = true then (Body.find? rest).map (InnerGroup.ofBody opens)
      else none

/-- The bracket of the first closer: its opener is the last one before that. -/
def firstGroup? : (tokens : List Token) → Option (InnerGroup tokens)
  | [] => none
  | token :: rest =>
    if token.isCloser = true then none
    else if opens : token.isOpener = true then
      match Body.find? rest with
      | some body => some (.ofBody opens body)
      | none => (firstGroup? rest).map (InnerGroup.cons token)
    else (firstGroup? rest).map (InnerGroup.cons token)

/-! ## What brackets come down to -/

section Resolving

variable {engine : Engine} {tokens result : List Token} {value : Token} {fault : Fault}

/-- Flat rewriting leaves a sequence as it is or puts a value into it. -/
theorem eq_or_value_of_resolve (resolved : engine.resolve tokens = .ok result) :
    result = tokens ∨ ∃ token ∈ result, ∃ expr, token.kind = .value expr := by
  fun_induction engine.resolve tokens with
  | case1 tokens absent => exact .inl (Except.ok.inj resolved).symm
  | case2 | case3 | case5 => contradiction
  | case4 tokens rule found first value applied shrinks shallow ih =>
      rcases ih resolved with rfl | holds
      · exact .inr ⟨value, by simp, (Reducer.apply_eq_ok applied).1⟩
      · exact .inr holds

theorem resolve_eq_error (failed : engine.resolve tokens = .error fault) :
    ∃ obstacle place, fault = .unresolvable obstacle place := by
  fun_induction engine.resolve tokens with
  | case1 => contradiction
  | case2 tokens rule found first fault' applied =>
      obtain rfl := Except.error.inj failed
      unfold Reducer.apply at applied
      split at applied
      · contradiction
      · exact ⟨_, _, (Except.error.inj applied).symm⟩
  | case3 | case5 => exact ⟨_, _, (Except.error.inj failed).symm⟩
  | case4 tokens rule found first value applied shrinks shallow ih => exact ih failed

/-- Several tokens come down to one only as a value. -/
theorem isValue_of_resolveGroup (resolved : engine.resolveGroup tokens = .ok value)
    (several : 2 ≤ tokens.length) : ∃ expr, value.kind = .value expr := by
  rcases eq_or_value_of_resolve (resolveGroup_eq_ok resolved) with rfl | ⟨token, member, isValue⟩
  · simp at several
  · rwa [List.mem_singleton.mp member] at isValue

theorem resolveGroup_unresolvable (failed : engine.resolveGroup tokens = .error fault) :
    ∃ obstacle place, fault = .unresolvable obstacle place := by
  unfold resolveGroup at failed
  split at failed
  · rename_i stuck
    obtain rfl := Except.error.inj failed
    exact resolve_eq_error stuck
  · contradiction
  · exact ⟨_, _, (Except.error.inj failed).symm⟩

end Resolving

/-! ## The first closer and the last opener -/

section Choices

variable {opened : List Span} {tokens : List Token}

/-- Where no bracket has the first closer, there are none. -/
theorem plain_of_firstGroup? (balanced : checkBrackets opened tokens = .ok ())
    (noBody : Body.find? tokens = none) (absent : firstGroup? tokens = none) : Plain tokens := by
  induction tokens generalizing opened with
  | nil => simp [Plain]
  | cons token tokens ih =>
      cases closes : token.isCloser with
      | true => simp [Body.find?, closes] at noBody
      | false =>
          cases opens : token.isOpener with
          | false =>
              rw [checkBrackets_other opens closes] at balanced
              have plain := ih balanced (by simpa [Body.find?, closes, opens] using noBody)
                (by simpa [firstGroup?, closes, opens] using absent)
              exact List.forall_mem_cons.mpr ⟨⟨opens, closes⟩, plain⟩
          | true =>
              -- an opener with no bracket behind it stays open
              rw [checkBrackets_opener opens] at balanced
              cases body : Body.find? tokens with
              | some body' => simp [firstGroup?, closes, opens, body] at absent
              | none =>
                  have plain := ih balanced body
                    (by simpa [firstGroup?, closes, opens, body] using absent)
                  rw [← List.append_nil tokens, checkBrackets_plain plain] at balanced
                  contradiction

/-- Where the brackets match, the first one is no closer. -/
theorem find?_eq_none_of_balanced (balanced : checkBrackets [] tokens = .ok ()) :
    Body.find? tokens = none := by
  cases found : Body.find? tokens with
  | none => rfl
  | some body =>
      rw [body.split, checkBrackets_plain body.plain] at balanced
      simp [checkBrackets, Token.isOpener, Token.isCloser, body.closes] at balanced

theorem lastGroup?_eq_none (flat : ∀ token ∈ tokens, token.isOpener = false) :
    lastGroup? tokens = none := by
  cases lastGroup? tokens with
  | none => rfl
  | some bracket =>
      have notOpener := flat bracket.opener bracket.opener_mem
      rw [bracket.opens] at notOpener
      contradiction

/-- Where no opener has a bracket, there are none. -/
theorem flat_of_lastGroup? (balanced : checkBrackets opened tokens = .ok ())
    (absent : lastGroup? tokens = none) : ∀ token ∈ tokens, token.isOpener = false := by
  induction tokens generalizing opened with
  | nil => simp
  | cons token tokens ih =>
      cases found : lastGroup? tokens with
      | some bracket => simp [lastGroup?, found] at absent
      | none =>
          cases opens : token.isOpener with
          | false =>
              obtain ⟨opened', balanced, -⟩ := checkBrackets_next opens balanced
              exact List.forall_mem_cons.mpr ⟨opens, ih balanced found⟩
          | true =>
              rw [checkBrackets_opener opens] at balanced
              obtain ⟨inside, closer, after, split, plain, closes, -⟩ :=
                exists_closer (ih balanced found) balanced
              have body := Body.find?_eq_some ⟨inside, closer, after, plain, closes, split⟩
              simp [lastGroup?, found, opens, body] at absent

/-- The bracket of the first closer goes first. -/
def Strategy.firstCloser : Strategy where
  pick? := firstGroup?
  complete _ balanced := plain_of_firstGroup? balanced (find?_eq_none_of_balanced balanced)

/-- The bracket of the last opener goes first. -/
def Strategy.lastOpener : Strategy where
  pick? := lastGroup?
  complete _ balanced absent := plain_of_flat (flat_of_lastGroup? balanced absent) balanced

end Choices

/-! ## Every order leads to the same sequence -/

/-- One bracket is resolved to its value. -/
inductive Contracts (engine : Engine) (tokens : List Token) : List Token → Prop
  | intro (bracket : InnerGroup tokens) {value : Token}
      (resolved : engine.resolveGroup bracket.group = .ok value) :
      Contracts engine tokens (bracket.replaced value)

section Orders

open Relation

variable {engine : Engine} {strategy : Strategy} {tokens final : List Token} {fault : Fault}

/-- If some order leads to a sequence without brackets, then any bracket may go first. -/
theorem Contracts.any (reaches : ReflTransGen engine.Contracts tokens final) (plain : Plain final)
    (bracket : InnerGroup tokens) :
    ∃ value, engine.resolveGroup bracket.group = .ok value ∧
      ReflTransGen engine.Contracts (bracket.replaced value) final := by
  induction reaches using ReflTransGen.head_induction_on with
  | refl => exact absurd plain bracket.not_plain
  | @head tokens next step rest ih =>
      obtain ⟨first, resolved⟩ := step
      by_cases same : first = bracket
      · subst same
        exact ⟨_, resolved, rest⟩
      · -- the bracket is still there after the first one, and the first one is after it
        obtain ⟨later, isGroup, swapped⟩ := InnerGroup.swap same _
        obtain ⟨value, resolved', reaches⟩ := ih later
        obtain ⟨first', isGroup', sameEnd⟩ := swapped value
        rw [isGroup] at resolved'
        rw [← isGroup'] at resolved
        rw [← sameEnd] at reaches
        exact ⟨value, resolved', .head (.intro first' resolved) reaches⟩

theorem resolveGroupsBy_none (absent : strategy.pick? tokens = none) :
    engine.resolveGroupsBy strategy tokens = .ok tokens := by
  rw [resolveGroupsBy, absent]

theorem resolveGroupsBy_some {bracket : InnerGroup tokens}
    (picked : strategy.pick? tokens = some bracket) :
    engine.resolveGroupsBy strategy tokens =
      engine.resolveGroup bracket.group >>= fun value =>
        engine.resolveGroupsBy strategy (bracket.replaced value) := by
  rw [resolveGroupsBy, picked]
  cases resolved : engine.resolveGroup bracket.group <;> simp only [resolved] <;> rfl

/-- A strategy ends exactly where some order of the brackets ends. -/
theorem resolveGroupsBy_eq_ok_iff (balanced : checkBrackets [] tokens = .ok ()) :
    engine.resolveGroupsBy strategy tokens = .ok final ↔
      ReflTransGen engine.Contracts tokens final ∧ Plain final := by
  fun_induction engine.resolveGroupsBy strategy tokens with
  | case1 tokens absent =>
      have plain := strategy.complete tokens balanced absent
      constructor
      · intro same
        obtain rfl := Except.ok.inj same
        exact ⟨.refl, plain⟩
      · rintro ⟨reaches, -⟩
        rcases reaches.cases_head with rfl | ⟨next, ⟨bracket, -⟩, -⟩
        · rfl
        · exact absurd plain bracket.not_plain
  | case2 tokens bracket picked fault failed =>
      constructor
      · intro same
        contradiction
      · rintro ⟨reaches, plain⟩
        obtain ⟨value, resolved, -⟩ := Contracts.any reaches plain bracket
        rw [failed] at resolved
        contradiction
  | case3 tokens bracket picked value resolved ih =>
      obtain ⟨expr, isValue⟩ := isValue_of_resolveGroup resolved bracket.two_le_group
      rw [ih (by rw [checkBrackets_replaced bracket isValue, balanced])]
      constructor
      · rintro ⟨reaches, plain⟩
        exact ⟨.head (.intro bracket resolved) reaches, plain⟩
      · rintro ⟨reaches, plain⟩
        obtain ⟨value', resolved', reaches⟩ := Contracts.any reaches plain bracket
        obtain rfl := Except.ok.inj (resolved.symm.trans resolved')
        exact ⟨reaches, plain⟩

theorem resolveGroupsBy_eq_error (failed : engine.resolveGroupsBy strategy tokens = .error fault) :
    ∃ obstacle place, fault = .unresolvable obstacle place := by
  fun_induction engine.resolveGroupsBy strategy tokens with
  | case1 => contradiction
  | case2 tokens bracket picked fault' stuck =>
      obtain rfl := Except.error.inj failed
      exact resolveGroup_unresolvable stuck
  | case3 tokens bracket picked value resolved ih => exact ih failed

theorem resolveGroupsBy_ne_nil (nonempty : tokens ≠ [])
    (resolved : engine.resolveGroupsBy strategy tokens = .ok final) : final ≠ [] := by
  fun_induction engine.resolveGroupsBy strategy tokens with
  | case1 tokens absent =>
      obtain rfl := Except.ok.inj resolved
      exact nonempty
  | case2 => contradiction
  | case3 tokens bracket picked value resolved' ih =>
      exact ih (by simp [InnerGroup.replaced]) resolved

end Orders

/-! ## The engine's own order -/

section LastOpener

variable {engine : Engine} {opened : List Span} {tokens final : List Token} {token : Token}

theorem lastOpener_cons (token : Token) {bracket : InnerGroup tokens}
    (picked : Strategy.lastOpener.pick? tokens = some bracket) :
    Strategy.lastOpener.pick? (token :: tokens) = some (bracket.cons token) := by
  simp only [Strategy.lastOpener, lastGroup?] at picked ⊢
  rw [picked]

theorem lastOpener_absent (resolved : engine.resolveGroupsBy .lastOpener tokens = .ok final) :
    lastGroup? final = none := by
  fun_induction engine.resolveGroupsBy .lastOpener tokens with
  | case1 tokens absent =>
      obtain rfl := Except.ok.inj resolved
      exact absent
  | case2 => contradiction
  | case3 tokens bracket picked value resolved' ih => exact ih resolved

theorem checkBrackets_resolveGroupsBy {strategy : Strategy}
    (resolved : engine.resolveGroupsBy strategy tokens = .ok final) (opened : List Span) :
    checkBrackets opened final = checkBrackets opened tokens := by
  fun_induction engine.resolveGroupsBy strategy tokens with
  | case1 tokens absent => rw [Except.ok.inj resolved]
  | case2 => contradiction
  | case3 tokens bracket picked value resolved' ih =>
      obtain ⟨expr, isValue⟩ := isValue_of_resolveGroup resolved' bracket.two_le_group
      rw [ih resolved, checkBrackets_replaced bracket isValue]

/-- The brackets behind a token go before its own. -/
theorem resolveGroupsBy_cons (token : Token) (tokens : List Token) :
    engine.resolveGroupsBy .lastOpener (token :: tokens) =
      engine.resolveGroupsBy .lastOpener tokens >>= fun rest =>
        engine.resolveGroupsBy .lastOpener (token :: rest) := by
  fun_induction engine.resolveGroupsBy .lastOpener tokens with
  | case1 tokens absent => rfl
  | case2 tokens bracket picked fault failed =>
      rw [resolveGroupsBy_some (lastOpener_cons token picked)]
      show engine.resolveGroup bracket.group >>= _ = _
      rw [failed]
      rfl
  | case3 tokens bracket picked value resolved ih =>
      rw [resolveGroupsBy_some (lastOpener_cons token picked)]
      show engine.resolveGroup bracket.group >>= _ = _
      rw [resolved]
      exact ih

/-- The step at an opener, when the brackets behind it are resolved. -/
theorem resolveGroupsBy_opener {inside after : List Token} {closer : Token}
    (opens : token.isOpener = true) (plain : Plain inside) (closes : closer.kind = .bracketClose)
    (flat : ∀ t ∈ inside ++ closer :: after, t.isOpener = false) :
    engine.resolveGroupsBy .lastOpener (token :: (inside ++ closer :: after)) =
      (engine.resolveGroup (token :: (inside ++ [closer]))).map (· :: after) := by
  let body : Body (inside ++ closer :: after) := ⟨inside, closer, after, plain, closes, rfl⟩
  have picked : Strategy.lastOpener.pick? (token :: (inside ++ closer :: after)) =
      some (.ofBody opens body) := by
    simp [Strategy.lastOpener, lastGroup?, lastGroup?_eq_none flat, opens, body.find?_eq_some]
  rw [resolveGroupsBy_some picked]
  show engine.resolveGroup (token :: (inside ++ [closer])) >>= _ = _
  cases resolved : engine.resolveGroup (token :: (inside ++ [closer])) with
  | error fault => rfl
  | ok value =>
      obtain ⟨expr, isValue⟩ := isValue_of_resolveGroup resolved (by simp)
      have notOpener : value.isOpener = false := by simp [Token.isOpener, isValue]
      have flat : ∀ t ∈ value :: after, t.isOpener = false :=
        List.forall_mem_cons.mpr ⟨notOpener, fun t member => flat t (by simp [member])⟩
      exact resolveGroupsBy_none (lastGroup?_eq_none flat)

/-- The engine resolves the brackets in the order of their openers, the last one first. -/
theorem resolveGroups_eq_lastOpener (balanced : checkBrackets opened tokens = .ok ()) :
    engine.resolveGroups tokens = engine.resolveGroupsBy .lastOpener tokens := by
  induction tokens generalizing opened with
  | nil => exact (resolveGroupsBy_none rfl).symm
  | cons token tokens ih =>
      obtain ⟨opened', balanced'⟩ := checkBrackets_tail balanced
      have same := ih balanced'
      rw [resolveGroupsBy_cons]
      cases resolved : engine.resolveGroupsBy .lastOpener tokens with
      | error fault =>
          rw [resolveGroups, same, resolved]
          rfl
      | ok rest =>
          rw [resolved] at same
          show engine.resolveGroups (token :: tokens) =
            engine.resolveGroupsBy .lastOpener (token :: rest)
          have balancedRest := (checkBrackets_resolveGroupsBy resolved opened').trans balanced'
          have flat := flat_of_lastGroup? balancedRest (lastOpener_absent resolved)
          cases opens : token.isOpener with
          | false =>
              rw [resolveGroups_other opens same, resolveGroupsBy_none]
              exact lastGroup?_eq_none (List.forall_mem_cons.mpr ⟨opens, flat⟩)
          | true =>
              rw [checkBrackets_opener opens] at balanced
              rw [← checkBrackets_resolveGroupsBy resolved] at balanced
              obtain ⟨inside, closer, after, rfl, plain, closes, -⟩ := exists_closer flat balanced
              rw [resolveGroups_opener opens plain closes same,
                resolveGroupsBy_opener opens plain closes flat]

end LastOpener

/-! ## Runs -/

section Runs

variable {engine : Engine} {strategy : Strategy} {tokens : List Token} {expr : Expr} {fault : Fault}

theorem run_eq_finish : engine.run tokens =
    checkBrackets [] tokens >>= fun _ => engine.resolveGroups tokens >>= engine.finish := by
  simp only [run, bind, Except.bind]
  split
  · rfl
  · split
    · rfl
    · rename_i rest _
      rcases rest with _ | ⟨first, _ | ⟨second, more⟩⟩ <;> rfl

/-- The engine runs by the order of the last opener. -/
theorem runBy_lastOpener (engine : Engine) (tokens : List Token) :
    engine.runBy .lastOpener tokens = engine.run tokens := by
  rw [run_eq_finish, runBy]
  cases balanced : checkBrackets [] tokens with
  | error fault => rfl
  | ok _ => rw [resolveGroups_eq_lastOpener balanced]

/-- What a strategy finds is said without it. -/
theorem runBy_eq_ok (balanced : checkBrackets [] tokens = .ok ()) :
    engine.runBy strategy tokens = .ok expr ↔
      ∃ final, (Relation.ReflTransGen engine.Contracts tokens final ∧ Plain final) ∧
        engine.finish final = .ok expr := by
  have ran : engine.runBy strategy tokens =
      engine.resolveGroupsBy strategy tokens >>= engine.finish := by
    rw [runBy, balanced]
    rfl
  rw [ran]
  constructor
  · intro found
    cases resolved : engine.resolveGroupsBy strategy tokens with
    | error fault =>
        rw [resolved] at found
        contradiction
    | ok final =>
        rw [resolved] at found
        exact ⟨final, (resolveGroupsBy_eq_ok_iff balanced).mp resolved, found⟩
  · rintro ⟨final, reaches, found⟩
    rw [(resolveGroupsBy_eq_ok_iff balanced).mpr reaches]
    exact found

theorem finish_eq_error {final : List Token} (nonempty : final ≠ [])
    (failed : engine.finish final = .error fault) :
    ∃ obstacle place, fault = .unresolvable obstacle place := by
  unfold finish at failed
  split at failed
  · contradiction
  · exact (rootOf_eq_error failed).1
  · cases resolved : engine.resolveGroup final with
    | error fault' =>
        rw [resolved] at failed
        obtain rfl := Except.error.inj failed
        exact resolveGroup_unresolvable resolved
    | ok token =>
        rw [resolved] at failed
        exact (rootOf_eq_error failed).1

theorem runBy_eq_error (nonempty : tokens ≠ [])
    (failed : engine.runBy strategy tokens = .error fault) :
    ∃ obstacle place, fault = .unresolvable obstacle place := by
  rw [runBy] at failed
  cases balanced : checkBrackets [] tokens with
  | error fault' =>
      rw [balanced] at failed
      obtain rfl := Except.error.inj failed
      exact checkBrackets_eq_error balanced
  | ok _ =>
      cases resolved : engine.resolveGroupsBy strategy tokens with
      | error fault' =>
          rw [balanced, resolved] at failed
          obtain rfl := Except.error.inj failed
          exact resolveGroupsBy_eq_error resolved
      | ok final =>
          rw [balanced, resolved] at failed
          exact finish_eq_error (resolveGroupsBy_ne_nil nonempty resolved) failed

/-- Every strategy finds the tree that the engine finds, and fails where the engine fails. -/
theorem runBy_eq_ok_iff_run (engine : Engine) {tokens : List Token} (nonempty : tokens ≠ [])
    (balanced : checkBrackets [] tokens = .ok ()) :
    (∀ (strategy : Strategy) (expr : Expr),
      engine.runBy strategy tokens = .ok expr ↔ engine.run tokens = .ok expr) ∧
    (∀ (strategy : Strategy) (fault : Fault), engine.runBy strategy tokens = .error fault →
      ∃ obstacle place, fault = .unresolvable obstacle place) ∧
    engine.runBy .lastOpener tokens = engine.run tokens := by
  refine ⟨?_, fun strategy fault => runBy_eq_error nonempty, runBy_lastOpener engine tokens⟩
  intro strategy expr
  rw [← runBy_lastOpener, runBy_eq_ok balanced, runBy_eq_ok balanced]

/-- In `(I0-I1)^abs(I2)` the call has the last opener and the difference the first closer. -/
theorem runBy_eq_ok_iff_run_firstCloser :
    let tokens := [Token.ofKind .bracketOpen ⟨0, 1⟩, Token.ofKind (.value (.image 0)) ⟨1, 3⟩,
      Token.ofKind (.operator .sub) ⟨3, 4⟩, Token.ofKind (.value (.image 1)) ⟨4, 6⟩,
      Token.ofKind .bracketClose ⟨6, 7⟩, Token.ofKind (.operator .pow) ⟨7, 8⟩,
      Token.ofKind (.functionStart "abs") ⟨8, 12⟩, Token.ofKind (.value (.image 2)) ⟨12, 14⟩,
      Token.ofKind .bracketClose ⟨14, 15⟩]
    tokens ≠ [] ∧ checkBrackets [] tokens = .ok () ∧
      (standard 3).runBy .firstCloser tokens =
        .ok (.binary (.binary (.image 0) .sub (.image 1)) .pow
          (.unary "abs" (.image 2) ⟨8, 12⟩)) := by
  intro tokens
  have nonempty : tokens ≠ [] := by simp [tokens]
  have balanced : checkBrackets [] tokens = .ok () := rfl
  have measured : Measured tokens := by
    unfold Measured
    decide
  have product (slot : Nat) (span : Span) :
      Derives .product [Token.ofKind (.value (.image slot)) span] (.image slot) :=
    .product (.chain (.unsigned (.run (.value rfl))))
  have base : Derives .primary (tokens.take 5) (.binary (.image 0) .sub (.image 1)) :=
    .brackets rfl rfl (.add rfl rfl (.sum (product 0 _)) (product 1 _))
  have exponent : Derives .primary (tokens.drop 6) (.unary "abs" (.image 2) ⟨8, 12⟩) :=
    .unary (show tokens[6].kind = .functionStart "abs" from rfl) rfl (.sum (product 2 _))
  have derives : Derives .sum tokens (.binary (.binary (.image 0) .sub (.image 1)) .pow
      (.unary "abs" (.image 2) ⟨8, 12⟩)) :=
    .sum (.product (.chain (.unsigned (.power rfl (.run base) exponent))))
  have ran := (run_eq_ok_iff measured).mpr ⟨derives, .inl (show _ ≤ 3 by decide)⟩
  exact ⟨nonempty, balanced,
    ((runBy_eq_ok_iff_run (standard 3) nonempty balanced).1 .firstCloser _).mpr ran⟩

end Runs

end Engine

end ImageFormula
