import Mathlib.Data.List.Forall2
import ImageFormula.Proofs.Depth

/-!
# What flat rewriting ends with

`Engine.resolve` takes any token sequence, with brackets that match or not. It ends in one of two
ways (`Engine.resolve_outcome`):

* **a normal form**: no standard rule fits anywhere, and the sequence it started from is cut into
  blocks, one for each token that is left. A block of one token is this token, and a longer block
  has become a value over its hull (`Condensed`);
* **a value that is too deep**: it stands for a block of the sequence, at the hull of this block.

Every step joins the blocks of the tokens that it takes (`Condensed.step`), so the blocks are an
invariant of the run. That the hull of hulls is the hull of all is `Condensed.hull?_eq`.
-/

namespace ImageFormula

/-! ## Hulls -/

namespace Span

theorem merge_assoc (a b c : Span) : (a.merge b).merge c = a.merge (b.merge c) := by
  simp only [merge, Nat.min_assoc, Nat.max_assoc]

instance : Std.Associative merge := ⟨merge_assoc⟩

theorem hull?_append {left right : List Span} {a b : Span} (isLeft : hull? left = some a)
    (isRight : hull? right = some b) : hull? (left ++ right) = some (a.merge b) := by
  cases left with
  | nil => contradiction
  | cons first left =>
      cases right with
      | nil => contradiction
      | cons second right =>
          obtain rfl := Option.some.inj isLeft
          obtain rfl := Option.some.inj isRight
          rw [List.cons_append, hull?, List.foldl_append, List.foldl_cons, List.foldl_assoc]

end Span

theorem Token.hull?_append {left right : List Token} {a b : Span} (isLeft : hull? left = some a)
    (isRight : hull? right = some b) : hull? (left ++ right) = some (a.merge b) := by
  rw [hull?, List.map_append]
  exact Span.hull?_append isLeft isRight

theorem Token.hull?_cons {token : Token} {tokens : List Token} {span : Span}
    (isHull : hull? tokens = some span) : hull? (token :: tokens) = some (token.span.merge span) :=
  hull?_append (show hull? [token] = some token.span from rfl) isHull

/-! ## Matches -/

namespace Rule

/-- A rule fits a run of tokens behind some others: the run has the classes of the pattern, and the
token on its left is no operand where the rule forbids one. -/
structure Fits (rule : Rule) (before run : List Token) : Prop where
  classes : run.map Token.tokenClass = rule.pattern
  free : rule.left = .noOperand → ∀ left, before.getLast? = some left → left.tokenClass ≠ .value

theorem Fits.leftAllows {rule : Rule} {before run : List Token} (fits : rule.Fits before run) :
    rule.leftAllows before.getLast? = true := by
  have free := fits.free
  unfold Rule.leftAllows
  split
  · rename_i token isLeft isLast
    simpa using free isLeft token isLast
  · rfl

theorem matchesPattern_append {pattern : List TokenClass} {run : List Token} (after : List Token)
    (classes : run.map Token.tokenClass = pattern) :
    matchesPattern pattern (run ++ after) = true := by
  induction run generalizing pattern with
  | nil =>
      obtain rfl := classes
      rfl
  | cons token run ih =>
      obtain rfl := classes
      simp [matchesPattern, ih rfl]

/-- A rule without a match fits nowhere; `passed` are the tokens before the sequence. -/
theorem not_fits_of_matchFrom? {rule : Rule} (passed : List Token)
    {tokens before run after : List Token}
    (absent : rule.matchFrom? passed.getLast? tokens = none)
    (isCut : tokens = before ++ (run ++ after)) : ¬ rule.Fits (passed ++ before) run := by
  induction before generalizing passed tokens with
  | nil =>
      intro fits
      obtain rfl := isCut
      have here : rule.matchesHere passed.getLast? (run ++ after) = true := by
        rw [matchesHere, matchesPattern_append after fits.classes, Bool.and_true]
        simpa using fits.leftAllows
      rw [List.nil_append, matchFrom?_here here] at absent
      contradiction
  | cons token before ih =>
      obtain rfl := isCut
      have later := (matchFrom?_cons_eq_none absent).2
      rw [List.append_cons]
      exact ih (passed ++ [token]) (by rwa [List.getLast?_concat]) rfl

end Rule

/-- No standard rule fits any run of a normal sequence. -/
theorem Normal.not_fits {tokens before run after : List Token} {rule : Rule}
    (normal : Normal tokens) (isRule : rule ∈ Rule.standard)
    (isCut : tokens = before ++ (run ++ after)) : ¬ rule.Fits before run := by
  have absent := Engine.firstMatch?_eq_none.mp normal rule isRule
  exact Rule.not_fits_of_matchFrom? [] absent isCut

/-! ## Blocks -/

/-- What a block of tokens becomes: one token stays as it is, and several become a value over their
hull, no deeper than they weigh. -/
inductive Condenses : List Token → Token → Prop
  | kept (token : Token) : Condenses [token] token
  | value {block : List Token} {token : Token} {expr : Expr} (several : 2 ≤ block.length)
      (isValue : token.kind = .value expr) (isHull : Token.hull? block = some token.span)
      (light : token.depth ≤ weight block) : Condenses block token

namespace Condenses

variable {block : List Token} {token : Token}

theorem hull? (condenses : Condenses block token) : Token.hull? block = some token.span := by
  cases condenses with
  | kept => rfl
  | value _ _ isHull _ => exact isHull

theorem nonempty (condenses : Condenses block token) : 0 < block.length := by
  cases condenses with
  | kept => exact Nat.one_pos
  | value several _ _ _ => exact Nat.lt_of_lt_of_le Nat.two_pos several

theorem weight_le (condenses : Condenses block token) : max 1 token.depth ≤ weight block := by
  have nonempty := condenses.nonempty
  have := length_le_weight block
  cases condenses with
  | kept => exact Nat.le_refl _
  | value _ _ _ light => omega

end Condenses

/-- A sequence is cut into consecutive blocks, and these have become the tokens. -/
def Condensed (source tokens : List Token) : Prop :=
  ∃ blocks : List (List Token), blocks.flatten = source ∧ List.Forall₂ Condenses blocks tokens

namespace Condensed

variable {source source' tokens tokens' : List Token}

theorem refl (tokens : List Token) : Condensed tokens tokens := by
  refine ⟨tokens.map fun token => [token], List.flatMap_singleton' tokens, ?_⟩
  rw [List.forall₂_map_left_iff, List.forall₂_same]
  intro token _
  exact .kept token

theorem append (left : Condensed source tokens) (right : Condensed source' tokens') :
    Condensed (source ++ source') (tokens ++ tokens') := by
  obtain ⟨blocks, rfl, condenses⟩ := left
  obtain ⟨blocks', rfl, condenses'⟩ := right
  exact ⟨blocks ++ blocks', List.flatten_append, List.rel_append condenses condenses'⟩

theorem split (condensed : Condensed source (tokens ++ tokens')) :
    ∃ left right, source = left ++ right ∧ Condensed left tokens ∧ Condensed right tokens' := by
  obtain ⟨blocks, rfl, condenses⟩ := condensed
  refine ⟨_, _, ?_, ⟨_, rfl, List.forall₂_take_append blocks tokens tokens' condenses⟩,
    ⟨_, rfl, List.forall₂_drop_append blocks tokens tokens' condenses⟩⟩
  rw [← List.flatten_append, List.take_append_drop]

theorem single {block : List Token} {token : Token} (condenses : Condenses block token) :
    Condensed block [token] :=
  ⟨[block], List.append_nil block, .cons condenses .nil⟩

theorem length_le (condensed : Condensed source tokens) : tokens.length ≤ source.length := by
  obtain ⟨blocks, rfl, condenses⟩ := condensed
  induction condenses with
  | nil => exact Nat.le_refl 0
  | cons first _ ih =>
      have := first.nonempty
      rw [List.flatten_cons, List.length_append, List.length_cons]
      omega

theorem eq_nil_iff (condensed : Condensed source tokens) : tokens = [] ↔ source = [] := by
  constructor
  · rintro rfl
    obtain ⟨blocks, rfl, condenses⟩ := condensed
    cases condenses
    rfl
  · rintro rfl
    exact List.eq_nil_of_length_eq_zero (Nat.le_zero.mp condensed.length_le)

theorem weight_le (condensed : Condensed source tokens) : weight tokens ≤ weight source := by
  obtain ⟨blocks, rfl, condenses⟩ := condensed
  induction condenses with
  | nil => exact Nat.le_refl 0
  | cons first _ ih =>
      have := first.weight_le
      rw [List.flatten_cons, weight_append, weight_cons]
      omega

/-- The hull of what blocks have become is the hull of all of them. -/
theorem hull?_eq (condensed : Condensed source tokens) :
    Token.hull? source = Token.hull? tokens := by
  obtain ⟨blocks, rfl, condenses⟩ := condensed
  induction condenses with
  | nil => rfl
  | @cons block token blocks tokens first rest ih =>
      cases rest with
      | nil =>
          rw [List.flatten_cons, List.flatten_nil, List.append_nil]
          exact first.hull?
      | cons second rest =>
          -- the tokens behind the first have a hull, since there is one at least
          rw [List.flatten_cons, Token.hull?_append first.hull? ih, Token.hull?_cons rfl]

/-- The tokens that a step takes are one block for the value that it puts. -/
theorem condenses {value : Token} {reducer : Reducer} (condensed : Condensed source tokens)
    (several : 2 ≤ tokens.length) (applied : reducer.apply tokens = .ok value) :
    Condenses source value := by
  obtain ⟨expr, depth, rfl, -, deeper⟩ := Reducer.exists_valueOf applied
  have isHull : Token.hull? tokens = some ((Token.hull? tokens).getD ⟨0, 0⟩) := by
    cases tokens with
    | nil => contradiction
    | cons => rfl
  refine .value (Nat.le_trans several condensed.length_le) rfl ?_ ?_
  · rw [condensed.hull?_eq]
    exact isHull
  · have := Reducer.operandDepth_lt_weight several
    have := condensed.weight_le
    show depth ≤ weight source
    omega

/-- A step joins blocks: its value stands for a block of the sequence that the run started from. -/
theorem step {next : List Token} {value : Token} (condensed : Condensed source tokens)
    (isStep : Step tokens value next) :
    Condensed source next ∧ ∃ before block after, source = before ++ (block ++ after) ∧
      2 ≤ block.length ∧ Token.hull? block = some value.span ∧ value.depth ≤ weight block := by
  obtain ⟨before, taken, after, rfl, rfl, several, reducer, applied⟩ := isStep.split
  obtain ⟨sourceBefore, rest, rfl, isBefore, condensed⟩ := condensed.split
  obtain ⟨block, sourceAfter, rfl, isTaken, isAfter⟩ := condensed.split
  have joined := isTaken.condenses several applied
  constructor
  · exact isBefore.append ((single joined).append isAfter)
  · refine ⟨sourceBefore, block, sourceAfter, rfl, Nat.le_trans several isTaken.length_le,
      joined.hull?, ?_⟩
    have := joined.weight_le
    omega

end Condensed

/-! ## Runs -/

namespace Engine

/-- Flat rewriting ends with a normal form, or at a block that weighs more than the limit. -/
theorem resolve_of_condensed (limit : Nat) {source tokens : List Token}
    (condensed : Condensed source tokens) :
    (∃ result, (standard limit).resolve tokens = .ok result ∧ Normal result ∧
      Condensed source result) ∨
    ∃ before block after span, (standard limit).resolve tokens =
        .error (.unresolvable (.tooDeep limit) (some span)) ∧
      source = before ++ (block ++ after) ∧ 2 ≤ block.length ∧
      Token.hull? block = some span ∧ limit < weight block := by
  induction tokens using rewriting_induction with
  | normal tokens normal => exact .inl ⟨tokens, resolve_of_normal normal, normal, condensed⟩
  | step tokens value next isStep ih =>
      obtain ⟨condensed, before, block, after, isCut, several, isHull, light⟩ :=
        condensed.step isStep
      rw [resolve_of_step isStep]
      by_cases deep : limit < value.depth
      · rw [if_pos deep]
        exact .inr ⟨before, block, after, value.span, rfl, isCut, several, isHull, by omega⟩
      · rw [if_neg deep]
        exact ih condensed

/-- Flat rewriting with the standard rules, of any tokens and under any limit. Either a block of the
tokens became a value deeper than the limit, and the fault says so at the hull of the block; or the
result is a normal form, in which every token is one of the tokens or a value for a block of them.
A rule is never refused for the tokens that it matches, nor for putting as many as it takes. Tokens
of a formula weigh as much as they are many (`weight_eq_length`). -/
theorem resolve_outcome (limit : Nat) (tokens : List Token) :
    (∃ before block after span, (standard limit).resolve tokens =
        .error (.unresolvable (.tooDeep limit) (some span)) ∧
      tokens = before ++ (block ++ after) ∧ 2 ≤ block.length ∧
      Token.hull? block = some span ∧ limit < weight block) ∨
    ∃ result, (standard limit).resolve tokens = .ok result ∧
      (∀ rule ∈ Rule.standard, ∀ before run after, result = before ++ (run ++ after) →
        ¬ rule.Fits before run) ∧
      (result = [] ↔ tokens = []) ∧
      ∃ blocks : List (List Token), blocks.flatten = tokens ∧
        List.Forall₂ Condenses blocks result := by
  rcases resolve_of_condensed limit (Condensed.refl tokens) with
    ⟨result, resolved, normal, condensed⟩ | tooDeep
  · refine .inr ⟨result, resolved, ?_, condensed.eq_nil_iff, condensed⟩
    intro rule isRule before run after isCut
    exact normal.not_fits isRule isCut
  · exact .inl tooDeep

end Engine

end ImageFormula
