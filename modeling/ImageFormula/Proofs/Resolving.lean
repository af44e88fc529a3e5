import ImageFormula.Proofs.Matching

/-!
# Flat rewriting, step by step

`Step tokens value next` is one rewriting step of the standard rules, and `Normal tokens` says that
there is none. `Engine.resolve` takes steps until the sequence is normal or a value is too deep
(`resolve_of_normal`, `resolve_of_step`); there is no other way for it to end, since every rule can
reduce what it matches and takes two tokens at least. Statements about whole runs go by
`rewriting_induction` and speak of one step only.
-/

namespace ImageFormula

/-- No standard rule matches. -/
def Normal (tokens : List Token) : Prop := Engine.firstMatch? tokens Rule.standard = none

/-- One step of the standard rules, which puts `value` in place of what a rule matches. -/
inductive Step (tokens : List Token) : Token → List Token → Prop
  | intro {rule : Rule} {found : Rule.Match} {value : Token}
      (first : Engine.firstMatch? tokens Rule.standard = some (rule, found))
      (applied : rule.reducer.apply found.matched = .ok value) :
      Step tokens value (found.before ++ value :: found.after)

namespace Engine

theorem firstMatch?_eq_none {tokens : List Token} {rules : List Rule} :
    firstMatch? tokens rules = none ↔ ∀ rule ∈ rules, rule.match? tokens = none := by
  induction rules with
  | nil => simp [firstMatch?]
  | cons rule rules ih =>
      cases matched : rule.match? tokens with
      | none => simp [firstMatch?, matched, ih]
      | some found => simp [firstMatch?, matched]

/-- The rule that fires is the first one that matches. -/
theorem firstMatch?_eq_some {tokens : List Token} {rules : List Rule} {rule : Rule}
    {found : Rule.Match} (first : firstMatch? tokens rules = some (rule, found)) :
    ∃ position, rules[position]? = some rule ∧ rule.match? tokens = some found ∧
      ∀ earlier ∈ rules.take position, earlier.match? tokens = none := by
  induction rules with
  | nil => contradiction
  | cons candidate rules ih =>
      cases matched : candidate.match? tokens with
      | some found' =>
          simp only [firstMatch?, matched, Option.some.injEq, Prod.mk.injEq] at first
          obtain ⟨rfl, rfl⟩ := first
          exact ⟨0, rfl, matched, by simp⟩
      | none =>
          simp only [firstMatch?, matched] at first
          obtain ⟨position, isRule, matched', absent⟩ := ih first
          refine ⟨position + 1, isRule, matched', ?_⟩
          intro earlier member
          rcases List.mem_cons.mp member with rfl | member
          · exact matched
          · exact absent earlier member

end Engine

namespace Step

variable {tokens next : List Token} {value : Token}

/-- The tokens that a step takes, with what is around them. -/
theorem split (step : Step tokens value next) :
    ∃ before taken after, tokens = before ++ (taken ++ after) ∧
      next = before ++ value :: after ∧ 2 ≤ taken.length ∧
      ∃ reducer : Reducer, reducer.apply taken = .ok value := by
  obtain ⟨first, applied⟩ := step
  rename_i rule found
  obtain ⟨position, isRule, matched, -⟩ := Engine.firstMatch?_eq_some first
  obtain ⟨split, classes⟩ := Rule.matchFrom?_eq_some matched
  have size := Rule.two_le_pattern (List.mem_of_getElem? isRule)
  rw [← classes, List.length_map] at size
  exact ⟨found.before, found.matched, found.after, split, rfl, size, rule.reducer, applied⟩

theorem shorter (step : Step tokens value next) : next.length < tokens.length := by
  obtain ⟨before, taken, after, rfl, rfl, size, -⟩ := step.split
  simp only [List.length_append, List.length_cons]
  omega

theorem isValue (step : Step tokens value next) : ∃ expr, value.kind = .value expr := by
  obtain ⟨before, taken, after, -, -, -, reducer, applied⟩ := step.split
  exact (Reducer.apply_eq_ok applied).1

end Step

/-- A sequence is normal, or there is a step. -/
theorem normal_or_step (tokens : List Token) :
    Normal tokens ∨ ∃ value next, Step tokens value next := by
  cases first : Engine.firstMatch? tokens Rule.standard with
  | none => exact .inl first
  | some fired =>
      obtain ⟨rule, found⟩ := fired
      obtain ⟨position, isRule, matched, -⟩ := Engine.firstMatch?_eq_some first
      obtain ⟨-, classes⟩ := Rule.matchFrom?_eq_some matched
      obtain ⟨value, applied⟩ := Rule.apply_ok (List.mem_of_getElem? isRule) classes
      exact .inr ⟨value, _, .intro first applied⟩

/-- What holds of normal sequences and passes from the end of a step to its start holds of all. -/
theorem rewriting_induction {motive : List Token → Prop}
    (normal : ∀ tokens, Normal tokens → motive tokens)
    (step : ∀ tokens value next, Step tokens value next → motive next → motive tokens)
    (tokens : List Token) : motive tokens := by
  rcases normal_or_step tokens with isNormal | ⟨value, next, isStep⟩
  · exact normal tokens isNormal
  · exact step tokens value next isStep (rewriting_induction normal step next)
termination_by tokens.length
decreasing_by exact isStep.shorter

namespace Engine

variable {limit : Nat} {tokens : List Token}

theorem resolve_of_normal (normal : Normal tokens) :
    (standard limit).resolve tokens = .ok tokens := by
  rw [resolve]
  simp only [standard]
  rw [normal]

theorem resolve_of_step {next : List Token} {value : Token} (step : Step tokens value next) :
    (standard limit).resolve tokens =
      if limit < value.depth then
        .error (.unresolvable (.tooDeep limit) (some value.span))
      else (standard limit).resolve next := by
  have shrinks := step.shorter
  cases step with
  | intro first applied =>
      rw [resolve]
      simp only [standard]
      rw [first]
      simp only [applied, dif_pos shrinks]
      rfl

/-- What every step keeps holds of what flat rewriting ends with, which is normal. -/
theorem resolve_invariant {result : List Token} (holds : List Token → Prop)
    (keeps : ∀ tokens value next, Step tokens value next → holds tokens → holds next)
    (resolved : (standard limit).resolve tokens = .ok result) (initially : holds tokens) :
    Normal result ∧ holds result := by
  induction tokens using rewriting_induction with
  | normal tokens normal =>
      rw [resolve_of_normal normal] at resolved
      obtain rfl := Except.ok.inj resolved
      exact ⟨normal, initially⟩
  | step tokens value next isStep ih =>
      rw [resolve_of_step isStep] at resolved
      split at resolved
      · contradiction
      · exact ih resolved (keeps tokens value next isStep initially)

end Engine

end ImageFormula
