import ImageFormula.Proofs.Compiling
import ImageFormula.Proofs.Strategies

/-!
# The limit is exact and changes nothing else

`Rewrites tokens next` is one rewriting of a whole sequence in a run: a rule fires in a bracket that
has none inside it, or in a sequence without brackets.

* **depth is height**: every token of a formula carries the height of its tree, and rewritings keep
  it so, whatever bracket they take (`Measured.rewritten`);
* **runs are rewritings**: a run that ends well goes from its tokens to its root by rewritings
  (`Engine.rewritten_of_run`);
* **trees are not higher than their tokens are many** (`Derives.height_le_length`), so a limit of
  that size refuses nothing.

The main statement is `Engine.run_eq_ok_iff_height_le`.
-/

namespace ImageFormula

open Relation

/-! ## The tokens of a text -/

/-- Words stand for leaves. -/
theorem Scope.readWord_leaf {scope after : Scope} {word : String} {span : Span} {expr : Expr}
    (read : scope.readWord word span = (.ok expr, after)) : expr.height = 1 := by
  cases scope with
  | images bound usage =>
      rcases image_or_number_of_wordValue? (wordValue?_of_readWord read) with ⟨slot, rfl, -⟩ |
        ⟨number, rfl⟩
      · rfl
      · rfl
  | sizes values =>
      simp only [readWord, resolve] at read
      repeat' split at read
      all_goals
        obtain ⟨isExpr, -⟩ := Prod.mk.inj read
        cases isExpr <;> rfl

namespace Lexeme

/-- The token of a lexeme carries the height of its tree, which is a leaf. -/
theorem token_leaf {lexeme : Lexeme} {scope after : Scope} {token' : Token}
    (read : lexeme.token scope = (.ok token', after)) :
    token'.depth = token'.kind.height ∧ token'.kind.height ≤ 1 := by
  unfold token at read
  cases kind : lexeme.kind with
  | word text =>
      simp only [kind] at read
      split at read
      · rename_i expr after' isWord
        obtain ⟨isToken, -⟩ := Prod.mk.inj read
        obtain rfl := Except.ok.inj isToken
        have leaf : expr.height = 1 := Scope.readWord_leaf isWord
        simp [Token.ofKind, TokenKind.height, leaf]
      · simp at read
  | operator op | bracketOpen | bracketClose | separator | functionStart name =>
      simp only [kind] at read
      obtain ⟨isToken, -⟩ := Prod.mk.inj read
      obtain rfl := Except.ok.inj isToken
      exact ⟨rfl, Nat.zero_le 1⟩

theorem tokens_leaf {lexemes : List Lexeme} {scope after : Scope} {tokens' : List Token}
    (read : tokens lexemes scope = (.ok tokens', after)) :
    ∀ token ∈ tokens', token.depth = token.kind.height ∧ token.kind.height ≤ 1 := by
  induction lexemes generalizing scope after tokens' with
  | nil =>
      obtain ⟨isTokens, -⟩ := Prod.mk.inj read
      obtain rfl := Except.ok.inj isTokens
      simp
  | cons lexeme lexemes ih =>
      rw [tokens] at read
      split at read
      · simp at read
      rename_i first between isFirst
      split at read
      · simp at read
      rename_i rest final isRest
      obtain ⟨isTokens, -⟩ := Prod.mk.inj read
      obtain rfl := Except.ok.inj isTokens
      exact List.forall_mem_cons.mpr ⟨token_leaf isFirst, ih isRest⟩

end Lexeme

theorem Scope.tokens_leaf {scope after : Scope} {text : String} {tokens : List Token}
    (read : scope.tokens text = (.ok tokens, after)) :
    ∀ token ∈ tokens, token.depth = token.kind.height ∧ token.kind.height ≤ 1 := by
  unfold Scope.tokens at read
  split at read
  · simp at read
  · exact Lexeme.tokens_leaf read

/-- A tree is not higher than its tokens are many, if they carry leaves. -/
theorem Derives.height_le_length {level : Level} {tokens : List Token} {expr : Expr}
    (derives : Derives level tokens expr) (leaves : ∀ token ∈ tokens, token.kind.height ≤ 1) :
    expr.height ≤ tokens.length := by
  induction derives with
  | value isValue => simpa [isValue, TokenKind.height] using leaves
  | run _ ih | unsigned _ ih | chain _ ih | product _ ih | sum _ ih => exact ih leaves
  | intrinsic => simp [Expr.height]
  | brackets _ _ _ ih | unary _ _ _ ih =>
      have := ih fun t member => leaves t (by simp [member])
      simp only [Expr.height, List.length_cons, List.length_append, List.length_nil]
      omega
  | binaryCall _ _ _ _ _ ih ih' =>
      have := ih fun t member => leaves t (by simp [member])
      have := ih' fun t member => leaves t (by simp [member])
      simp only [Expr.height, List.length_cons, List.length_append, List.length_nil]
      omega
  | tertiary _ _ _ _ _ _ _ ih ih' ih'' =>
      have := ih fun t member => leaves t (by simp [member])
      have := ih' fun t member => leaves t (by simp [member])
      have := ih'' fun t member => leaves t (by simp [member])
      simp only [Expr.height, List.length_cons, List.length_append, List.length_nil]
      omega
  | plus _ _ ih | minus _ _ ih =>
      have := ih fun t member => leaves t (by simp [member])
      simp only [Expr.height_negate, List.length_cons]
      omega
  | power _ _ _ ih ih' | times _ _ _ _ ih ih' | add _ _ _ _ ih ih' | chainPower _ _ _ _ _ ih ih' =>
      have := ih fun t member => leaves t (List.mem_append_left _ member)
      have := ih' fun t member => leaves t (List.mem_append_right _ (.tail _ member))
      simp only [Expr.height, List.length_append, List.length_cons] at *
      omega

/-! ## Rewritings of a whole sequence -/

/-- One rewriting of a run: a rule fires in a bracket that has none inside it, or in a sequence
without brackets. -/
inductive Rewrites (tokens : List Token) : List Token → Prop
  | bracket (bracket : Engine.InnerGroup tokens) {value : Token} {next : List Token}
      (step : Step bracket.group value next) :
      Rewrites tokens (bracket.before ++ (next ++ bracket.body.after))
  | formula (plain : Engine.Plain tokens) {value : Token} {next : List Token}
      (step : Step tokens value next) : Rewrites tokens next

theorem Engine.InnerGroup.tokens_eq {tokens : List Token} (bracket : InnerGroup tokens) :
    tokens = bracket.before ++ (bracket.group ++ bracket.body.after) := by
  obtain ⟨before, opener, rest, opens, ⟨inside, closer, after, plain, closes, rfl⟩, rfl⟩ := bracket
  simp [group]

/-- A rewriting keeps every depth the height of its tree. -/
theorem Rewrites.measured {tokens next : List Token} (rewrites : Rewrites tokens next)
    (measured : Measured tokens) : Measured next := by
  cases rewrites with
  | formula plain step => exact step.measured measured
  | bracket bracket step =>
      rw [bracket.tokens_eq, Measured.append, Measured.append] at measured
      rw [Measured.append, Measured.append]
      exact ⟨measured.1, step.measured measured.2.1, measured.2.2⟩

/-- So does any number of them. -/
theorem Measured.rewritten {tokens current : List Token} (measured : Measured tokens)
    (rewritten : ReflTransGen Rewrites tokens current) : Measured current := by
  induction rewritten with
  | refl => exact measured
  | tail _ rewrites ih => exact rewrites.measured ih

namespace Engine

section Rewritten

variable {limit : Nat} {tokens final : List Token} {value : Token} {expr : Expr}

/-- Tokens inside a bracket end in its closer, if the formula goes on behind them. -/
theorem exists_plain_of_inside {rest : List Token} (inside : Inside tokens rest)
    (more : rest ≠ []) :
    ∃ body closer, tokens = body ++ [closer] ∧ Plain body ∧ closer.kind = .bracketClose := by
  induction inside with
  | finish => contradiction
  | @close token _ closes => exact ⟨[], token, rfl, by simp [Plain], closes⟩
  | @next token _ _ notOpener notCloser _ ih =>
      obtain ⟨body, closer, rfl, plain, closes⟩ := ih more
      exact ⟨token :: body, closer, rfl,
        List.forall_mem_cons.mpr ⟨⟨notOpener, notCloser⟩, plain⟩, closes⟩

/-- A rule that fires in a bracket leaves a bracket without brackets inside, or its value. -/
theorem step_bracket {opener closer : Token} {inside next : List Token}
    (opens : opener.isOpener = true) (plain : Plain inside) (closes : closer.kind = .bracketClose)
    (step : Step (opener :: (inside ++ [closer])) value next) :
    next = [value] ∨ ∃ opener' inside' closer', next = opener' :: (inside' ++ [closer']) ∧
      opener'.isOpener = true ∧ Plain inside' ∧ closer'.kind = .bracketClose := by
  -- with a token behind it, a group cannot be a whole formula
  have group : Group .start (opener :: (inside ++ [closer])) [closer] :=
    .bracket opens (plain.inside closes)
  have member := step.mem
  cases (group.step step).1 with
  | value isValue =>
      rw [List.mem_singleton.mp member]
      exact .inl rfl
  | @bracket _ opener' tokens _ opens' inside' =>
      obtain ⟨body, closer', rfl, plain', closes'⟩ :=
        exists_plain_of_inside inside' (List.cons_ne_nil closer [])
      exact .inr ⟨opener', body, closer', rfl, opens', plain', closes'⟩

/-- A bracket is rewritten to its value where it stands. -/
theorem rewritten_of_bracket (before after : List Token) {inside group : List Token}
    {opener closer : Token} (opens : opener.isOpener = true) (plain : Plain inside)
    (closes : closer.kind = .bracketClose) (isGroup : group = opener :: (inside ++ [closer]))
    (resolved : (standard limit).resolve group = .ok [value]) :
    ReflTransGen Rewrites (before ++ (group ++ after)) (before ++ value :: after) := by
  induction group using rewriting_induction generalizing opener inside closer with
  | normal group normal =>
      rw [resolve_of_normal normal, isGroup] at resolved
      simp at resolved
  | step group value' next step ih =>
      rw [resolve_of_step step] at resolved
      split at resolved
      · contradiction
      subst isGroup
      have rewrites : Rewrites (before ++ (opener :: (inside ++ [closer]) ++ after))
          (before ++ (next ++ after)) :=
        .bracket ⟨before, opener, inside ++ closer :: after, opens,
          ⟨inside, closer, after, plain, closes, rfl⟩, by simp⟩ step
      refine .head rewrites ?_
      rcases step_bracket opens plain closes step with rfl | ⟨_, _, _, isNext, opens, plain, closes⟩
      · rw [resolve_of_normal (normal_singleton value')] at resolved
        rw [List.singleton_inj.mp (Except.ok.inj resolved)]
        exact .refl
      · exact ih opens plain closes isNext resolved

theorem rewritten_of_contracts (contracts : (standard limit).Contracts tokens final) :
    ReflTransGen Rewrites tokens final := by
  obtain ⟨bracket, resolved⟩ := contracts
  have rewritten := rewritten_of_bracket bracket.before bracket.body.after bracket.opens
    bracket.body.plain bracket.body.closes rfl (resolveGroup_eq_ok resolved)
  have isTokens := bracket.tokens_eq
  unfold InnerGroup.group at isTokens
  rwa [← isTokens] at rewritten

theorem rewritten_of_contractions
    (contracts : ReflTransGen (standard limit).Contracts tokens final) :
    ReflTransGen Rewrites tokens final := by
  induction contracts with
  | refl => exact .refl
  | tail _ step ih => exact ih.trans (rewritten_of_contracts step)

/-- A sequence without brackets is rewritten as a whole. -/
theorem rewritten_of_plain (plain : Plain tokens)
    (resolved : (standard limit).resolve tokens = .ok final) :
    ReflTransGen Rewrites tokens final := by
  induction tokens using rewriting_induction with
  | normal tokens normal =>
      rw [resolve_of_normal normal] at resolved
      obtain rfl := Except.ok.inj resolved
      exact .refl
  | step tokens value next step ih =>
      rw [resolve_of_step step] at resolved
      split at resolved
      · contradiction
      refine .head (.formula plain step) (ih ?_ resolved)
      obtain ⟨expr, isValue⟩ := step.isValue
      obtain ⟨before, taken, after, rfl, rfl, -⟩ := step.split
      intro token member
      rcases List.mem_append.mp member with member | member
      · exact plain token (by simp [member])
      · rcases List.mem_cons.mp member with rfl | member
        · simp [Token.isOpener, Token.isCloser, isValue]
        · exact plain token (by simp [member])

/-- A run that ends well goes from its tokens to its root by rewritings. -/
theorem rewritten_of_run (ran : (standard limit).run tokens = .ok expr) :
    ∃ root, ReflTransGen Rewrites tokens [root] ∧ root.kind = .value expr := by
  have balanced := (run_eq_ok ran).1
  rw [← runBy_lastOpener, runBy_eq_ok balanced] at ran
  obtain ⟨final, ⟨contracts, plain⟩, found⟩ := ran
  have rewritten := rewritten_of_contractions contracts
  unfold finish at found
  split at found
  · contradiction
  · exact ⟨_, rewritten, rootOf_eq_ok found⟩
  · cases resolved : (standard limit).resolveGroup final with
    | error fault =>
        rw [resolved] at found
        contradiction
    | ok root =>
        rw [resolved] at found
        exact ⟨root, rewritten.trans (rewritten_of_plain plain (resolveGroup_eq_ok resolved)),
          rootOf_eq_ok found⟩

end Rewritten

/-- Within a limit the engine finds the trees of at most that height among those that it finds
without one, and the depth of every token is the height of its tree throughout. -/
theorem run_eq_ok_iff_height_le {scope after : Scope} {text : String} {tokens : List Token}
    (read : scope.tokens text = (.ok tokens, after)) {limit large : Nat} (positive : 1 ≤ limit)
    (enough : tokens.length ≤ large) :
    (∀ expr, (standard limit).run tokens = .ok expr ↔
      (standard large).run tokens = .ok expr ∧ expr.height ≤ limit) ∧
    (∀ current, ReflTransGen Rewrites tokens current → Measured current) ∧
    ∀ expr, (standard limit).run tokens = .ok expr →
      ∃ root, ReflTransGen Rewrites tokens [root] ∧ root.kind = .value expr := by
  have leaf := Scope.tokens_leaf read
  have measured : Measured tokens := fun token member => (leaf token member).1
  have leaves : ∀ token ∈ tokens, token.kind.height ≤ 1 := fun token member => (leaf token member).2
  refine ⟨?_, fun current => measured.rewritten, fun expr => rewritten_of_run⟩
  intro expr
  rw [run_eq_ok_iff measured, run_eq_ok_iff measured]
  constructor
  · rintro ⟨derives, low⟩
    have bounded := derives.height_le_length leaves
    exact ⟨⟨derives, .inl (by omega)⟩, by omega⟩
  · rintro ⟨⟨derives, -⟩, low⟩
    exact ⟨derives, .inl low⟩

/-- `I0+I1*I2` has a tree of height three. -/
theorem run_eq_ok_iff_height_le_sum :
    let scope := Scope.images 3 ⟨some 0, some 0, some 2, [0, 1, 2]⟩
    let tokens : List Token := [.ofKind (.value (.image 0)) ⟨0, 2⟩, .ofKind (.operator .add) ⟨2, 3⟩,
      .ofKind (.value (.image 1)) ⟨3, 5⟩, .ofKind (.operator .mul) ⟨5, 6⟩,
      .ofKind (.value (.image 2)) ⟨6, 8⟩]
    let expr : Expr := .binary (.image 0) .add (.binary (.image 1) .mul (.image 2))
    (Scope.images 3 .empty).tokens "I0+I1*I2" = (.ok tokens, scope) ∧ tokens.length ≤ 5 ∧
      (standard 3).run tokens = .ok expr ∧ (standard 2).run tokens ≠ .ok expr := by
  intro scope tokens expr
  have read : (Scope.images 3 .empty).tokens "I0+I1*I2" = (.ok tokens, scope) := by decide +kernel
  have unlimited : (standard 5).run tokens = .ok expr := by decide +kernel
  have limited (limit : Nat) (positive : 1 ≤ limit) :=
    (run_eq_ok_iff_height_le read positive (Nat.le_refl 5)).1 expr
  refine ⟨read, Nat.le_refl 5, (limited 3 (by decide)).mpr ⟨unlimited, by decide⟩, ?_⟩
  intro ran
  have low := ((limited 2 (by decide)).mp ran).2
  exact absurd low (by decide)

end Engine

end ImageFormula
