import ImageFormula.Proofs.Resolving

/-!
# The depth of values

A step puts a value at most one level deeper than the deepest token that it takes, and not less
deep. The first bound keeps a run of few tokens within every limit that is not smaller than their
`weight` (`Engine.resolve_isOk`); the second makes the depth of what is left in the end the only
depth that matters (`Engine.resolve_limit`).
-/

namespace ImageFormula

theorem foldl_max_le {depths : List Nat} {least bound : Nat} :
    depths.foldl max least ≤ bound ↔ least ≤ bound ∧ ∀ depth ∈ depths, depth ≤ bound := by
  induction depths generalizing least with
  | nil => simp
  | cons depth depths ih =>
      rw [List.foldl_cons, ih]
      simp only [List.mem_cons, forall_eq_or_imp, Nat.max_le, and_assoc]

theorem Reducer.operandDepth_le {tokens : List Token} {bound : Nat} :
    operandDepth tokens ≤ bound ↔ ∀ token ∈ tokens, token.depth ≤ bound := by
  simp [operandDepth, foldl_max_le]

/-- The depths of a sequence added up, each token counted at least once. -/
def weight : List Token → Nat
  | [] => 0
  | token :: tokens => max 1 token.depth + weight tokens

@[simp] theorem weight_nil : weight [] = 0 := rfl

@[simp] theorem weight_cons (token : Token) (tokens : List Token) :
    weight (token :: tokens) = max 1 token.depth + weight tokens := rfl

@[simp] theorem weight_append (left right : List Token) :
    weight (left ++ right) = weight left + weight right := by
  induction left with
  | nil => simp
  | cons token left ih =>
      rw [List.cons_append, weight_cons, weight_cons, ih]
      omega

theorem length_le_weight (tokens : List Token) : tokens.length ≤ weight tokens := by
  induction tokens with
  | nil => simp
  | cons token tokens ih =>
      simp only [List.length_cons, weight_cons]
      omega

/-- Tokens of depth one at most weigh as much as they are many. -/
theorem weight_eq_length {tokens : List Token} (flat : ∀ token ∈ tokens, token.depth ≤ 1) :
    weight tokens = tokens.length := by
  induction tokens with
  | nil => rfl
  | cons token tokens ih =>
      have := flat token (.head _)
      rw [weight_cons, ih fun t member => flat t (.tail _ member), List.length_cons]
      omega

/-- Two tokens or more are heavier than the deepest of them. -/
theorem Reducer.operandDepth_lt_weight {tokens : List Token} (size : 2 ≤ tokens.length) :
    operandDepth tokens < weight tokens := by
  have deeper : operandDepth tokens ≤ weight tokens - 1 := by
    rw [operandDepth_le]
    intro token member
    obtain ⟨before, after, rfl⟩ := List.append_of_mem member
    have := length_le_weight before
    have := length_le_weight after
    simp only [List.length_append, List.length_cons] at size
    simp only [weight_append, weight_cons]
    omega
  have := length_le_weight tokens
  omega

namespace Step

variable {tokens next : List Token} {value : Token}

theorem mem (step : Step tokens value next) : value ∈ next := by
  obtain ⟨before, taken, after, -, rfl, -⟩ := step.split
  simp

theorem weight (step : Step tokens value next) :
    value.depth ≤ weight tokens ∧ ImageFormula.weight next ≤ ImageFormula.weight tokens := by
  obtain ⟨before, taken, after, rfl, rfl, size, reducer, applied⟩ := step.split
  have deeper := (Reducer.apply_eq_ok applied).2.2
  have lighter := Reducer.operandDepth_lt_weight size
  have := length_le_weight taken
  simp only [weight_append, weight_cons]
  omega

/-- No depth gets lost. -/
theorem operandDepth_le (step : Step tokens value next) :
    Reducer.operandDepth tokens ≤ Reducer.operandDepth next := by
  obtain ⟨before, taken, after, rfl, rfl, -, reducer, applied⟩ := step.split
  have kept := Reducer.operandDepth_le.mp (Reducer.apply_eq_ok applied).2.1
  have bounds := Reducer.operandDepth_le.mp
    (Nat.le_refl (Reducer.operandDepth (before ++ value :: after)))
  rw [Reducer.operandDepth_le]
  intro token member
  simp only [List.mem_append, List.mem_cons] at member bounds
  rcases member with member | member | member
  · exact bounds token (.inl member)
  · exact Nat.le_trans (kept token member) (bounds value (.inr (.inl rfl)))
  · exact bounds token (.inr (.inr member))

end Step

/-- No rule matches a single token. -/
theorem normal_singleton (token : Token) : Normal [token] := by
  rcases normal_or_step [token] with normal | ⟨value, next, step⟩
  · exact normal
  · have shorter := step.shorter
    have := List.length_pos_of_mem step.mem
    rw [List.length_singleton] at shorter
    omega

namespace Engine

variable {limit : Nat} {tokens result : List Token} {token : Token}

/-- Flat rewriting ends well within every limit that the tokens do not outweigh. -/
theorem resolve_isOk (light : weight tokens ≤ limit) :
    ∃ result, (standard limit).resolve tokens = .ok result := by
  induction tokens using rewriting_induction with
  | normal tokens normal => exact ⟨tokens, resolve_of_normal normal⟩
  | step tokens value next isStep ih =>
      have bounds := isStep.weight
      rw [resolve_of_step isStep, if_neg (by omega)]
      exact ih (by omega)

theorem resolve_weight (resolved : (standard limit).resolve tokens = .ok result) :
    weight result ≤ weight tokens := by
  refine (resolve_invariant (weight · ≤ weight tokens) ?_ resolved (Nat.le_refl _)).2
  intro current value next isStep light
  exact Nat.le_trans isStep.weight.2 light

/-- A sequence that comes down to one token comes down to a value within the limit. -/
theorem resolve_single (resolved : (standard limit).resolve tokens = .ok [token])
    (size : 2 ≤ tokens.length) : (∃ expr, token.kind = .value expr) ∧ token.depth ≤ limit := by
  induction tokens using rewriting_induction with
  | normal tokens normal =>
      rw [resolve_of_normal normal] at resolved
      obtain rfl := Except.ok.inj resolved
      simp at size
  | step tokens value next isStep ih =>
      rw [resolve_of_step isStep] at resolved
      split at resolved
      · contradiction
      rename_i shallow
      by_cases more : 2 ≤ next.length
      · exact ih resolved more
      -- the value that the last step puts is all that is left
      obtain ⟨before, taken, after, -, rfl, -⟩ := isStep.split
      simp only [List.length_append, List.length_cons] at more
      obtain rfl := List.eq_nil_of_length_eq_zero (show before.length = 0 by omega)
      obtain rfl := List.eq_nil_of_length_eq_zero (show after.length = 0 by omega)
      rw [List.nil_append, resolve_of_normal (normal_singleton value)] at resolved
      obtain rfl := List.singleton_inj.mp (Except.ok.inj resolved)
      exact ⟨isStep.isValue, by omega⟩

theorem resolve_operandDepth (resolved : (standard limit).resolve tokens = .ok result) :
    Reducer.operandDepth tokens ≤ Reducer.operandDepth result := by
  refine (resolve_invariant (Reducer.operandDepth tokens ≤ Reducer.operandDepth ·) ?_ resolved
    (Nat.le_refl _)).2
  intro current value next isStep deep
  exact Nat.le_trans deep isStep.operandDepth_le

/-- Whether flat rewriting keeps within a limit depends only on what it ends with. -/
theorem resolve_limit {limit' : Nat} (resolved : (standard limit).resolve tokens = .ok result)
    (shallow : Reducer.operandDepth result ≤ limit') :
    (standard limit').resolve tokens = .ok result := by
  induction tokens using rewriting_induction with
  | normal tokens normal =>
      rw [resolve_of_normal normal] at resolved ⊢
      exact resolved
  | step tokens value next isStep ih =>
      rw [resolve_of_step isStep] at resolved ⊢
      split at resolved
      · contradiction
      have deepest := Nat.le_trans (resolve_operandDepth resolved) shallow
      have bound := Reducer.operandDepth_le.mp deepest value isStep.mem
      rw [if_neg (by omega)]
      exact ih resolved

end Engine

end ImageFormula
