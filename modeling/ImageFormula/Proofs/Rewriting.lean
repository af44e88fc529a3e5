import ImageFormula.Proofs.Matching
import ImageFormula.Proofs.Reading

/-!
# Rewriting and reading

A rewriting step of the standard rules does not change what is read: `Engine.resolve` replaces a
bracket, or the whole of a formula, by tokens that are read alike.

The rules are tried in their order, so when a rule fires those before it match nowhere, and it
fires at its leftmost match. `Ahead` says what this means for a reading that has come to some place
in the sequence: which left sides cannot be open there, and which tokens cannot come next.
-/

namespace ImageFormula

/-- `Inside tokens rest`: the tokens have no bracket but a closer at their end, and `rest` follows
them; without the closer they are the end of the formula. -/
inductive Inside : List Token → List Token → Prop
  | finish : Inside [] []
  | close {token : Token} {rest : List Token} (closes : token.kind = .bracketClose) :
      Inside [token] rest
  | next {token : Token} {tokens rest : List Token} (notOpener : token.isOpener = false)
      (notCloser : token.isCloser = false) (inside : Inside tokens rest) :
      Inside (token :: tokens) rest

/-- Whether a sequence starts with tokens of the given classes. -/
abbrev Starts (classes : List TokenClass) (tokens : List Token) : Prop :=
  Rule.matchesPattern classes tokens = true

/-- Whether the token on the left leaves room for a sign. -/
abbrev Free (left : Option Token) : Prop := Rule.sign.leftAllows left = true

/-- The rules for operators, highest priority first. -/
def operatorRules : List Rule := [Rule.power, Rule.sign, Rule.product, Rule.sum]

/-- None of the first `count` rules for operators matches at the start of the sequence. -/
def Quiet (count : Nat) (left : Option Token) (tokens : List Token) : Prop :=
  ∀ rule ∈ operatorRules.take count, rule.matchesHere left tokens = false

/-- None of the first `count` rules for operators matches anywhere in the sequence. -/
def Still (count : Nat) (left : Option Token) (tokens : List Token) : Prop :=
  ∀ rule ∈ operatorRules.take count, rule.matchFrom? left tokens = none

/-- The left sides that are complete behind places where the first `count` rules are quiet. -/
structure Pending.Clean (count : Nat) (p : Pending) : Prop where
  signs : 2 ≤ count → p.signs = []
  chain : 2 ≤ count → p.chain = none
  product : 3 ≤ count → p.product = none
  sum : 4 ≤ count → p.sum = none

/-- What a reading is and what can come next, if the first `count` rules were quiet at every place
up to here. -/
def Ahead (count : Nat) (p : Pending) (left : Option Token) (tokens : List Token) : Prop :=
  match p.phase with
  | .awaiting => Free left ∧ (p.Clean count ∨ ¬ Starts [.value] tokens)
  | .holding _ => ¬ Free left ∧ p.Clean count ∧ (1 ≤ count → ¬ Starts [.power, .value] tokens) ∧
      (3 ≤ count → ¬ Starts [.product, .value] tokens) ∧
      (4 ≤ count → ¬ Starts [.sum, .value] tokens)
  | .raising _ => Free left ∧ p.Clean count ∧ (1 ≤ count → ¬ Starts [.value] tokens)

/-- The rules for brackets and calls. -/
def bracketRules : List Rule :=
  [Rule.brackets, Rule.intrinsic, Rule.unaryCall, Rule.binaryCall, Rule.tertiaryCall]

theorem standard_eq_append : Rule.standard = operatorRules ++ bracketRules := rfl

theorem Still.cons {count : Nat} {left : Option Token} {token : Token} {rest : List Token}
    (still : Still count left (token :: rest)) :
    Quiet count left (token :: rest) ∧ Still count (some token) rest :=
  ⟨fun rule member => (Rule.matchFrom?_cons_eq_none (still rule member)).1,
    fun rule member => (Rule.matchFrom?_cons_eq_none (still rule member)).2⟩

theorem mem_take_operatorRules {index count : Nat} (rule : Rule)
    (isRule : operatorRules[index]? = some rule) (bound : index < count) :
    rule ∈ operatorRules.take count := by
  rw [List.mem_iff_getElem?]
  exact ⟨index, by rw [List.getElem?_take_of_lt bound, isRule]⟩

namespace Quiet

variable {count : Nat} {left : Option Token} {tokens : List Token}

theorem not_starts (quiet : Quiet count left tokens) {rule : Rule}
    (member : rule ∈ operatorRules.take count) (allows : rule.leftAllows left = true) :
    ¬ Starts rule.pattern tokens := by
  have here : (rule.leftAllows left && Rule.matchesPattern rule.pattern tokens) = false :=
    quiet rule member
  rw [allows, Bool.true_and] at here
  simp [here]

theorem power (quiet : Quiet count left tokens) (bound : 1 ≤ count) :
    ¬ Starts [.value, .power, .value] tokens :=
  quiet.not_starts (mem_take_operatorRules Rule.power rfl bound) rfl

theorem sign (quiet : Quiet count left tokens) (bound : 2 ≤ count) (free : Free left) :
    ¬ Starts [.sum, .value] tokens :=
  quiet.not_starts (mem_take_operatorRules Rule.sign rfl bound) free

theorem product (quiet : Quiet count left tokens) (bound : 3 ≤ count) :
    ¬ Starts [.value, .product, .value] tokens :=
  quiet.not_starts (mem_take_operatorRules Rule.product rfl bound) rfl

theorem sum (quiet : Quiet count left tokens) (bound : 4 ≤ count) :
    ¬ Starts [.value, .sum, .value] tokens :=
  quiet.not_starts (mem_take_operatorRules Rule.sum rfl bound) rfl

end Quiet

theorem starts_cons {token : Token} {tokens : List Token} {expected : TokenClass}
    {classes : List TokenClass} (isClass : token.tokenClass = expected) :
    Starts (expected :: classes) (token :: tokens) ↔ Starts classes tokens := by
  simp [Starts, Rule.matchesPattern, isClass]

theorem starts_value {token : Token} {tokens : List Token} {expr : Expr}
    {classes : List TokenClass} (value : token.kind = .value expr) :
    Starts (.value :: classes) (token :: tokens) ↔ Starts classes tokens :=
  starts_cons (by rw [Token.tokenClass, value]; rfl)

theorem starts_operator {token : Token} {tokens : List Token} {op : Operator}
    {classes : List TokenClass} (operates : token.kind = .operator op) :
    Starts (op.tokenClass :: classes) (token :: tokens) ↔ Starts classes tokens :=
  starts_cons (by rw [Token.tokenClass, operates]; rfl)

theorem not_free_value {token : Token} {expr : Expr} (value : token.kind = .value expr) :
    ¬ Free (some token) := by
  simp [Free, Rule.leftAllows, Rule.sign, Token.tokenClass, value, TokenKind.tokenClass]

theorem free_operator {token : Token} {op : Operator} (operates : token.kind = .operator op) :
    Free (some token) := by
  cases op <;> simp [Free, Rule.leftAllows, Rule.sign, Token.tokenClass, operates,
    TokenKind.tokenClass, Operator.tokenClass]

theorem free_separator {token : Token} (separates : token.kind = .separator) :
    Free (some token) := by
  simp [Free, Rule.leftAllows, Rule.sign, Token.tokenClass, separates, TokenKind.tokenClass]

theorem Pending.clean_start (count : Nat) : Pending.start.Clean count :=
  ⟨fun _ => rfl, fun _ => rfl, fun _ => rfl, fun _ => rfl⟩

/-- What cannot come behind a value at which rules are quiet. -/
theorem Quiet.behind_value {count : Nat} {left : Option Token} {token : Token}
    {tokens : List Token} {expr : Expr} (quiet : Quiet count left (token :: tokens))
    (value : token.kind = .value expr) :
    (1 ≤ count → ¬ Starts [.power, .value] tokens) ∧
      (3 ≤ count → ¬ Starts [.product, .value] tokens) ∧
      (4 ≤ count → ¬ Starts [.sum, .value] tokens) := by
  have power := quiet.power
  have product := quiet.product
  have sum := quiet.sum
  rw [starts_value value] at power product sum
  exact ⟨power, product, sum⟩

/-- After a sign that starts or continues a signed phrase, no operand comes where the rule for signs
is quiet. -/
theorem Quiet.no_operand {count : Nat} {left : Option Token} {token : Token} {tokens : List Token}
    {op : Operator} (quiet : Quiet count left (token :: tokens)) (bound : 2 ≤ count)
    (free : Free left) (operates : token.kind = .operator op) (isSign : op.isSign = true) :
    ¬ Starts [.value] tokens := by
  intro starts
  cases op with
  | add | sub => exact quiet.sign bound free ((starts_operator operates).mpr starts)
  | pow | mul | div => contradiction

theorem Quiet.after_sign {count : Nat} {left : Option Token} {token : Token} {tokens : List Token}
    {op : Operator} {p : Pending} (quiet : Quiet count left (token :: tokens)) (free : Free left)
    (operates : token.kind = .operator op) (isSign : op.isSign = true) :
    p.Clean count ∨ ¬ Starts [.value] tokens := by
  by_cases bound : 2 ≤ count
  · exact .inr (quiet.no_operand bound free operates isSign)
  · exact .inl ⟨by omega, by omega, by omega, by omega⟩

/-- One token more keeps `Ahead`, if the rules are quiet at it. -/
theorem Ahead.next {count : Nat} {frames : List Frame} {p : Pending} {left : Option Token}
    {token : Token} {tokens : List Token} {next : Reading}
    (ahead : Ahead count p left (token :: tokens)) (bound : 1 ≤ count)
    (quiet : Quiet count left (token :: tokens))
    (notOpener : token.isOpener = false) (notCloser : token.isCloser = false)
    (step : Reading.next? ⟨frames, p⟩ token = some next) :
    Ahead count next.top (some token) tokens := by
  obtain ⟨sum, product, chain, signs, phase⟩ := p
  cases kind : token.kind with
  | value expr =>
      simp only [Reading.next?, kind, Reading.operand?, Pending.operand?] at step
      cases phase with
      | awaiting =>
          -- a value does come next, so nothing is open that a rule could have closed
          obtain rfl := Option.some.inj step
          have clean := ahead.2.resolve_right fun absent => absent ((starts_value kind).mpr rfl)
          exact ⟨not_free_value kind, ⟨clean.signs, clean.chain, clean.product, clean.sum⟩,
            quiet.behind_value kind⟩
      | holding run => contradiction
      | raising run => exact absurd ((starts_value kind).mpr rfl) (ahead.2.2 bound)
  | operator op =>
      simp only [Reading.next?, kind, Pending.operator?] at step
      cases phase with
      | awaiting | raising run =>
          obtain ⟨top, stepTop, rfl⟩ := Option.map_eq_some_iff.mp step
          simp only [Option.ite_none_right_eq_some, Option.some.injEq] at stepTop
          obtain ⟨isSign, rfl⟩ := stepTop
          exact ⟨free_operator kind, quiet.after_sign ahead.1 kind isSign⟩
      | holding run =>
          obtain ⟨-, clean, power, product, sum⟩ := ahead
          have free := free_operator kind
          cases op with
          | pow =>
              obtain rfl := Option.some.inj step
              refine ⟨free, ⟨clean.signs, clean.chain, clean.product, clean.sum⟩, ?_⟩
              intro bound starts
              exact power bound ((starts_operator kind).mpr starts)
          | mul | div =>
              -- the product stays open, and then its rule being quiet forbids a value
              obtain rfl := Option.some.inj step
              refine ⟨free, ?_⟩
              by_cases bound : 3 ≤ count
              · right
                exact fun starts => product bound ((starts_operator kind).mpr starts)
              · left
                exact ⟨fun _ => rfl, fun _ => rfl, by omega, by omega⟩
          | add | sub =>
              obtain rfl := Option.some.inj step
              refine ⟨free, ?_⟩
              by_cases bound : 4 ≤ count
              · right
                exact fun starts => sum bound ((starts_operator kind).mpr starts)
              · left
                exact ⟨fun _ => rfl, fun _ => rfl, fun _ => rfl, by omega⟩
  | separator =>
      simp only [Reading.next?, kind, Reading.separate?] at step
      split at step
      · obtain rfl := Option.some.inj step
        exact ⟨free_separator kind, .inl (Pending.clean_start count)⟩
      · contradiction
  | bracketOpen => simp [Token.isOpener, kind] at notOpener
  | functionStart name => simp [Token.isOpener, kind] at notOpener
  | bracketClose => simp [Token.isCloser, kind] at notCloser

/-! ## Readings that cannot be completed -/

/-- A phrase that has been started and lacks an operand, with none next, stays incomplete where the
rule for signs is quiet: all that can follow are more signs. -/
theorem Inside.read_incomplete {tokens rest : List Token} (inside : Inside tokens rest)
    {count : Nat} {frames : List Frame} {p : Pending} {left : Option Token}
    (lacks : ∀ run, p.phase ≠ .holding run) (started : p ≠ .start) (free : Free left)
    (absent : ¬ Starts [.value] tokens) (bound : 2 ≤ count) (still : Still count left tokens) :
    Reading.read ⟨frames, p⟩ (tokens ++ rest) = none := by
  induction inside generalizing p left with
  | finish => cases frames <;> cases phase : p.phase <;> simp_all [Reading.read, Reading.result?]
  | close closes =>
      rw [List.singleton_append, Reading.read_cons, Reading.next?, closes]
      cases frames with
      | nil => rfl
      | cons frame frames =>
          have open' : frame.value? p = none := by
            cases call : frame.call <;> cases phase : p.phase <;> simp_all [Frame.value?]
          simp [Reading.close?, open']
  | @next token tokens rest notOpener notCloser _ ih =>
      obtain ⟨quiet, still⟩ := still.cons
      rw [List.cons_append]
      cases kind : token.kind with
      | value expr => exact absurd ((starts_value kind).mpr rfl) absent
      | operator op =>
          rw [Reading.read_operator kind]
          cases phase : p.phase with
          | holding run => exact absurd phase (lacks run)
          | awaiting | raising run =>
              simp only [Pending.operator?, phase]
              cases isSign : op.isSign with
              | false => rfl
              | true =>
                  simp only [if_true, Option.bind_some]
                  -- one sign more: no operand comes after it either
                  refine ih (by simp) ?_ (free_operator kind)
                    (quiet.no_operand bound free kind isSign) still
                  intro equal
                  simpa [Pending.start] using congrArg Pending.signs equal
      | separator =>
          rw [Reading.read_cons, Reading.next?, kind]
          rcases frames with _ | ⟨⟨outer, _ | call, args⟩, frames⟩
          all_goals cases phase : p.phase <;> simp_all [Reading.separate?]
      | bracketOpen => simp [Token.isOpener, kind] at notOpener
      | functionStart name => simp [Token.isOpener, kind] at notOpener
      | bracketClose => simp [Token.isCloser, kind] at notCloser

/-! ## Readings that agree

Two readings that hold the same value at some level, and the same left sides above it, go on
alike as long as nothing tighter than that level follows. -/

/-- The same value of a chain, and the same left sides around it. -/
structure Pending.SameChain (p q : Pending) (a b : Expr) : Prop where
  holds : p.phase = .holding a
  holds' : q.phase = .holding b
  chain : p.chainValue a = q.chainValue b
  product : p.product = q.product
  sum : p.sum = q.sum

/-- The same value of a product, and the same left side around it. -/
structure Pending.SameProduct (p q : Pending) (a b : Expr) : Prop where
  holds : p.phase = .holding a
  holds' : q.phase = .holding b
  product : p.productValue a = q.productValue b
  sum : p.sum = q.sum

/-- The same value of a sum. -/
structure Pending.SameSum (p q : Pending) (a b : Expr) : Prop where
  holds : p.phase = .holding a
  holds' : q.phase = .holding b
  sum : p.sumValue a = q.sumValue b

namespace Pending

variable {p q : Pending} {a b : Expr}

theorem SameChain.toProduct (same : SameChain p q a b) : SameProduct p q a b :=
  ⟨same.holds, same.holds', by simp only [productValue, same.chain, same.product], same.sum⟩

theorem SameProduct.toSum (same : SameProduct p q a b) : SameSum p q a b :=
  ⟨same.holds, same.holds', by simp only [sumValue, same.product, same.sum]⟩

theorem SameSum.result? (same : SameSum p q a b) (frames : List Frame) :
    Reading.result? ⟨frames, p⟩ = Reading.result? ⟨frames, q⟩ := by
  cases frames <;> simp [Reading.result?, same.holds, same.holds', same.sum]

/-- Readings of the same sum are the same after an operator of sums and after what ends a sum. -/
theorem SameSum.next? (same : SameSum p q a b) (frames : List Frame) {token : Token}
    (notPower : token.tokenClass ≠ .power) (notProduct : token.tokenClass ≠ .product) :
    Reading.next? ⟨frames, p⟩ token = Reading.next? ⟨frames, q⟩ token := by
  unfold Reading.next?
  cases kind : token.kind with
  | value expr => simp [Reading.operand?, Pending.operand?, same.holds, same.holds']
  | operator op =>
      cases op with
      | pow => exact absurd (by rw [Token.tokenClass, kind]; rfl) notPower
      | mul | div => exact absurd (by rw [Token.tokenClass, kind]; rfl) notProduct
      | add | sub => simp [Pending.operator?, same.holds, same.holds', same.sum]
  | bracketOpen | functionStart name => simp [Reading.open?, same.holds, same.holds']
  | separator =>
      rcases frames with _ | ⟨⟨outer, _ | call, args⟩, frames⟩
      all_goals simp [Reading.separate?, same.holds, same.holds', same.sum]
  | bracketClose =>
      cases frames with
      | nil => rfl
      | cons frame frames =>
          have values : frame.value? p = frame.value? q := by
            cases call : frame.call <;> simp [Frame.value?, call, same.holds, same.holds', same.sum]
          simp only [Reading.close?, values]

/-- Readings of the same product are the same after anything but `^`. -/
theorem SameProduct.next? (same : SameProduct p q a b) (frames : List Frame) {token : Token}
    (notPower : token.tokenClass ≠ .power) :
    Reading.next? ⟨frames, p⟩ token = Reading.next? ⟨frames, q⟩ token := by
  by_cases isProduct : token.tokenClass = .product
  · obtain ⟨op, operates, tier⟩ := Token.holds_of_class isProduct
    simp only [Reading.next?, operates, operator?_times same.holds tier,
      operator?_times same.holds' tier, same.product, same.sum]
  · exact same.toSum.next? frames notPower isProduct

end Pending

namespace Inside

variable {tokens rest : List Token} {frames : List Frame} {p q : Pending} {a b : Expr}

/-- Readings that have come to the end of their brackets, or of the formula, without a difference
that shows. -/
theorem read_eq_of_next? (inside : Inside tokens rest) (same : p.SameSum q a b)
    (next : ∀ token more, tokens = token :: more →
      Reading.read ⟨frames, p⟩ (token :: (more ++ rest)) =
        Reading.read ⟨frames, q⟩ (token :: (more ++ rest))) :
    Reading.read ⟨frames, p⟩ (tokens ++ rest) = Reading.read ⟨frames, q⟩ (tokens ++ rest) := by
  cases inside with
  | finish => exact same.result? frames
  | close closes => exact next _ [] rfl
  | next _ _ _ => exact next _ _ rfl

theorem tail {token : Token} (inside : Inside (token :: tokens) rest)
    (notCloser : token.kind ≠ .bracketClose) : Inside tokens rest := by
  cases inside with
  | close closes => exact absurd closes notCloser
  | next _ _ inside => exact inside

/-- Two readings of the same chain before a `^` that has no operand next. -/
theorem read_sameChain_raising (inside : Inside tokens rest) (same : p.SameChain q a b)
    (absent : ¬ Starts [.value] tokens) :
    Reading.read ⟨frames, { p with phase := .raising a }⟩ (tokens ++ rest) =
      Reading.read ⟨frames, { q with phase := .raising b }⟩ (tokens ++ rest) := by
  have chain : ({ p with phase := .raising a } : Pending).chainValue a =
      ({ q with phase := .raising b } : Pending).chainValue b := same.chain
  cases inside with
  | finish => cases frames <;> rfl
  | @close token _ closes =>
      rw [List.singleton_append, Reading.read_cons, Reading.read_cons]
      rcases frames with _ | ⟨⟨outer, _ | call, args⟩, frames⟩
      all_goals simp [Reading.next?, closes, Reading.close?, Frame.value?]
  | @next token _ _ notOpener notCloser inside =>
      rw [List.cons_append]
      cases kind : token.kind with
      | value expr => exact absurd ((starts_value kind).mpr rfl) absent
      | operator op =>
          rw [Reading.read_operator kind, Reading.read_operator kind]
          simp only [Pending.operator?]
          rw [chain, same.product, same.sum]
      | separator =>
          rw [Reading.read_cons, Reading.read_cons]
          cases frames <;> simp [Reading.next?, kind, Reading.separate?]
      | bracketOpen => simp [Token.isOpener, kind] at notOpener
      | functionStart name => simp [Token.isOpener, kind] at notOpener
      | bracketClose => simp [Token.isCloser, kind] at notCloser

theorem read_sameChain (inside : Inside tokens rest) (same : p.SameChain q a b)
    (absent : ¬ Starts [.power, .value] tokens) :
    Reading.read ⟨frames, p⟩ (tokens ++ rest) = Reading.read ⟨frames, q⟩ (tokens ++ rest) := by
  apply inside.read_eq_of_next? same.toProduct.toSum
  rintro token more rfl
  by_cases isPower : token.tokenClass = .power
  · have raises : token.kind = .operator .pow := Token.holds_of_class isPower
    rw [Reading.read_operator raises, Reading.read_operator raises]
    simp only [Pending.operator?, same.holds, same.holds', Option.bind_some]
    apply (inside.tail (by simp [raises])).read_sameChain_raising same
    exact fun starts => absent ((starts_cons isPower).mpr starts)
  · rw [Reading.read_cons, Reading.read_cons, same.toProduct.next? frames isPower]

/-- A reading that holds a value and goes on with an operator that has no operand next is not
completed where the rule for signs is quiet. -/
theorem read_operator_eq_none {token left : Token} {count : Nat} {op : Operator}
    (inside : Inside (token :: tokens) rest) (holds : p.phase = .holding a)
    (operates : token.kind = .operator op)
    (absent : ¬ Starts [token.tokenClass, .value] (token :: tokens)) (bound : 2 ≤ count)
    (still : Still count (some left) (token :: tokens)) :
    Reading.read ⟨frames, p⟩ (token :: (tokens ++ rest)) = none := by
  obtain ⟨next, step, lacks, started⟩ : ∃ next, p.operator? op = some next ∧
      (∀ run, next.phase ≠ .holding run) ∧ next ≠ .start := by
    cases op <;> simp [Pending.operator?, holds, Pending.start]
  rw [Reading.read_operator operates, step, Option.bind_some]
  apply (inside.tail (by simp [operates])).read_incomplete lacks started (free_operator operates) _
    bound still.cons.2
  exact fun starts => absent ((starts_cons rfl).mpr starts)

/-- Two readings of the same sum go on alike if they do so at any token but `^`: at a `^` neither is
completed. -/
theorem read_same {left : Token} {count : Nat} (inside : Inside tokens rest)
    (same : p.SameSum q a b) (absent : ¬ Starts [.power, .value] tokens) (bound : 2 ≤ count)
    (still : Still count (some left) tokens)
    (next : ∀ token more, tokens = token :: more → token.tokenClass ≠ .power →
      Reading.read ⟨frames, p⟩ (token :: (more ++ rest)) =
        Reading.read ⟨frames, q⟩ (token :: (more ++ rest))) :
    Reading.read ⟨frames, p⟩ (tokens ++ rest) = Reading.read ⟨frames, q⟩ (tokens ++ rest) := by
  apply inside.read_eq_of_next? same
  rintro token more rfl
  by_cases isPower : token.tokenClass = .power
  · have raises : token.kind = .operator .pow := Token.holds_of_class isPower
    rw [← isPower] at absent
    rw [inside.read_operator_eq_none same.holds raises absent bound still,
      inside.read_operator_eq_none same.holds' raises absent bound still]
  · exact next token more rfl isPower

theorem read_sameProduct {left : Token} {count : Nat} (inside : Inside tokens rest)
    (same : p.SameProduct q a b) (absent : ¬ Starts [.power, .value] tokens) (bound : 2 ≤ count)
    (still : Still count (some left) tokens) :
    Reading.read ⟨frames, p⟩ (tokens ++ rest) = Reading.read ⟨frames, q⟩ (tokens ++ rest) := by
  apply inside.read_same same.toSum absent bound still
  intro token more _ notPower
  rw [Reading.read_cons, Reading.read_cons, same.next? frames notPower]

theorem read_sameSum {left : Token} {count : Nat} (inside : Inside tokens rest)
    (same : p.SameSum q a b) (absent : ¬ Starts [.power, .value] tokens)
    (absent' : ¬ Starts [.product, .value] tokens) (bound : 2 ≤ count)
    (still : Still count (some left) tokens) :
    Reading.read ⟨frames, p⟩ (tokens ++ rest) = Reading.read ⟨frames, q⟩ (tokens ++ rest) := by
  apply inside.read_same same absent bound still
  rintro token more rfl notPower
  by_cases isProduct : token.tokenClass = .product
  · obtain ⟨op, operates, -⟩ := Token.holds_of_class isProduct
    rw [← isProduct] at absent'
    rw [inside.read_operator_eq_none same.holds operates absent' bound still,
      inside.read_operator_eq_none same.holds' operates absent' bound still]
  · rw [Reading.read_cons, Reading.read_cons, same.next? frames notPower isProduct]

end Inside

/-! ## One rewriting step -/

theorem Starts.cons {expected : TokenClass} {classes : List TokenClass} {tokens : List Token}
    (starts : Starts (expected :: classes) tokens) :
    ∃ token more, tokens = token :: more ∧ token.tokenClass = expected ∧ Starts classes more := by
  cases tokens with
  | nil => contradiction
  | cons token more =>
      simp only [Starts, Rule.matchesPattern, Bool.and_eq_true, beq_iff_eq] at starts
      exact ⟨token, more, rfl, starts⟩

/-- The three tokens that a rule for an operator between two values matches, and their value. -/
theorem Starts.operation {expected : TokenClass} {tokens : List Token} {result : Token}
    (starts : Starts [.value, expected, .value] tokens)
    (isOperator : ∀ kind, expected.Holds kind → ∃ op, kind = .operator op)
    (applied : Reducer.operator.apply (tokens.take 3) = .ok result) :
    ∃ first token second more lhs op rhs, tokens = first :: token :: second :: more ∧
      first.kind = .value lhs ∧ token.kind = .operator op ∧ token.tokenClass = expected ∧
      second.kind = .value rhs ∧ result.kind = .value (.binary lhs op rhs) := by
  obtain ⟨first, _, rfl, left, starts⟩ := starts.cons
  obtain ⟨token, _, rfl, isClass, starts⟩ := starts.cons
  obtain ⟨second, more, rfl, right, -⟩ := starts.cons
  obtain ⟨lhs, left⟩ := Token.holds_of_class left
  obtain ⟨op, operates⟩ := isOperator _ (Token.holds_of_class isClass)
  obtain ⟨rhs, right⟩ := Token.holds_of_class right
  have value := applied.symm.trans (Reducer.apply_operator left operates right)
  obtain rfl := Except.ok.inj value
  exact ⟨first, token, second, more, lhs, op, rhs, rfl, left, operates, isClass, right, rfl⟩

theorem Reading.read_value {frames : List Frame} {p : Pending} {token : Token} {expr : Expr}
    {rest : List Token} (value : token.kind = .value expr) :
    Reading.read ⟨frames, p⟩ (token :: rest) =
      (p.operand? expr).bind fun top => Reading.read ⟨frames, top⟩ rest := by
  simp only [Reading.read_cons, Reading.next?, value, Reading.operand?, Option.bind_map]
  rfl

section Here

variable {frames : List Frame} {p : Pending} {left : Option Token} {tokens rest : List Token}
  {result : Token}

/-- What `Ahead` says where a rule for an operator between two values fires. -/
theorem Ahead.clean {count : Nat} (ahead : Ahead count p left tokens) (bound : 1 ≤ count)
    (starts : Starts [.value] tokens) :
    p.phase = .awaiting ∧ p.Clean count ∨ ∃ run, p.phase = .holding run := by
  unfold Ahead at ahead
  split at ahead
  · rename_i phase
    exact .inl ⟨phase, ahead.2.resolve_right fun absent => absent starts⟩
  · rename_i run phase
    exact .inr ⟨run, phase⟩
  · exact absurd starts (ahead.2.2 bound)

/-- Where a rule for an operator between two values fires, nothing is open that the rules up to it
could have closed. So it is enough to compare the readings behind the left value. -/
theorem read_operation_here {count : Nat} {expected : TokenClass} (inside : Inside tokens rest)
    (still : Still count left tokens) (ahead : Ahead (count + 1) p left tokens)
    (starts : Starts [.value, expected, .value] tokens)
    (isOperator : ∀ kind, expected.Holds kind → ∃ op, kind = .operator op)
    (applied : Reducer.operator.apply (tokens.take 3) = .ok result)
    (behind : ∀ lhs op rhs token second more, p.Clean (count + 1) → expected.Holds (.operator op) →
      token.kind = .operator op → second.kind = .value rhs → Inside more rest →
      Still count (some token) (second :: more) →
      Reading.read ⟨frames, { p with phase := .holding (.binary lhs op rhs) }⟩ (more ++ rest) =
        Reading.read ⟨frames, { p with phase := .holding lhs }⟩
          (token :: second :: (more ++ rest))) :
    Reading.read ⟨frames, p⟩ (result :: (tokens.drop 3 ++ rest)) =
      Reading.read ⟨frames, p⟩ (tokens ++ rest) := by
  obtain ⟨first, token, second, more, lhs, op, rhs, rfl, isFirst, operates, isClass, isSecond,
    isResult⟩ := starts.operation isOperator applied
  have holds : expected.Holds (.operator op) := by
    rw [← operates]
    exact Token.holds_of_class isClass
  have inside' : Inside more rest :=
    ((inside.tail (by simp [isFirst])).tail (by simp [operates])).tail (by simp [isSecond])
  simp only [List.drop_succ_cons, List.drop_zero, List.cons_append]
  rw [Reading.read_value isResult, Reading.read_value isFirst]
  rcases ahead.clean (by omega) ((starts_value isFirst).mpr rfl) with ⟨phase, clean⟩ | ⟨run, phase⟩
  · simp only [Pending.operand?, phase, Option.bind_some]
    exact behind lhs op rhs token second more clean holds operates isSecond inside'
      still.cons.2.cons.2
  · simp [Pending.operand?, phase]

/-- Where the rule for powers fires, no `^` is open before it, so the power starts its run. -/
theorem read_power_here (inside : Inside tokens rest) (still : Still 0 left tokens)
    (ahead : Ahead 1 p left tokens) (starts : Starts [.value, .power, .value] tokens)
    (applied : Reducer.operator.apply (tokens.take 3) = .ok result) :
    Reading.read ⟨frames, p⟩ (result :: (tokens.drop 3 ++ rest)) =
      Reading.read ⟨frames, p⟩ (tokens ++ rest) := by
  apply read_operation_here inside still ahead starts (fun _ holds => ⟨_, holds⟩) applied
  intro lhs op rhs token second more _ holds operates isSecond _ _
  obtain rfl : op = .pow := TokenKind.operator.inj holds
  -- the three tokens make a run, which is what the value is read as
  rw [Reading.read_operator operates]
  simp only [Pending.operator?, Option.bind_some]
  rw [Reading.read_value isSecond]
  rfl

/-- Where the rule for signs fires, no sign is open before a `^` on its left, so the signed operand
continues the run that the `^` has started. -/
theorem read_sign_here (inside : Inside tokens rest) (still : Still 1 left tokens)
    (ahead : Ahead 2 p left tokens) (free : Free left) (starts : Starts [.sum, .value] tokens)
    (applied : Reducer.sign.apply (tokens.take 2) = .ok result) :
    Reading.read ⟨frames, p⟩ (result :: (tokens.drop 2 ++ rest)) =
      Reading.read ⟨frames, p⟩ (tokens ++ rest) := by
  obtain ⟨token, _, rfl, isClass, starts⟩ := starts.cons
  obtain ⟨operand, more, rfl, isOperand, -⟩ := starts.cons
  obtain ⟨op, operates, isSign⟩ := Token.holds_of_class isClass
  obtain ⟨expr, isOperand⟩ := Token.holds_of_class isOperand
  have isResult : result.kind = .value (Pending.applySign expr op) := by
    have isResult := Reducer.kind_of_apply (Reducer.apply_sign operates isSign isOperand) applied
    cases op with
    | add | sub => exact isResult
    | pow | mul | div => contradiction
  have inside' : Inside more rest := (inside.tail (by simp [operates])).tail (by simp [isOperand])
  have absent : ¬ Starts [.power, .value] more :=
    (still.cons.2.cons.1.behind_value isOperand).1 (by decide)
  simp only [List.drop_succ_cons, List.drop_zero, List.cons_append]
  rw [Reading.read_value isResult, Reading.read_operator operates]
  cases phase : p.phase with
  | awaiting =>
      simp only [Pending.operand?, Pending.operator?, phase, isSign, if_true, Option.bind_some]
      rw [Reading.read_value isOperand]
      exact inside'.read_sameChain ⟨rfl, rfl, rfl, rfl, rfl⟩ absent
  | holding run =>
      simp only [Ahead, phase] at ahead
      exact absurd free ahead.1
  | raising run =>
      -- with no sign and no chain open, both the run and the chain before the `^` are the run
      simp only [Ahead, phase] at ahead
      have signs := ahead.2.1.signs (by decide)
      have chain := ahead.2.1.chain (by decide)
      simp only [Pending.operand?, Pending.operator?, phase, isSign, if_true, Option.bind_some]
      rw [Reading.read_value isOperand]
      refine inside'.read_sameChain ⟨rfl, rfl, ?_, rfl, rfl⟩ absent
      simp [Pending.chainValue, signs, chain, Pending.join]

/-- Where the rule for products fires, no product is open before it. -/
theorem read_product_here (inside : Inside tokens rest) (still : Still 2 left tokens)
    (ahead : Ahead 3 p left tokens) (starts : Starts [.value, .product, .value] tokens)
    (applied : Reducer.operator.apply (tokens.take 3) = .ok result) :
    Reading.read ⟨frames, p⟩ (result :: (tokens.drop 3 ++ rest)) =
      Reading.read ⟨frames, p⟩ (tokens ++ rest) := by
  apply read_operation_here inside still ahead starts
    (fun _ ⟨op, operates, _⟩ => ⟨op, operates⟩) applied
  rintro lhs op rhs token second more clean ⟨_, ⟨⟩, tier⟩ operates isSecond inside' still'
  obtain ⟨power, -, -⟩ := still'.cons.1.behind_value isSecond
  rw [Reading.read_operator operates, Pending.operator?_times rfl tier, Option.bind_some,
    Reading.read_value isSecond]
  refine inside'.read_sameProduct ⟨rfl, rfl, ?_, rfl⟩ (power (by decide)) (by decide) still'.cons.2
  simp [Pending.productValue, Pending.chainValue, clean.signs, clean.chain, clean.product,
    Pending.join, Pending.start]

/-- Where the rule for sums fires, no sum is open before it. -/
theorem read_sum_here (inside : Inside tokens rest) (still : Still 3 left tokens)
    (ahead : Ahead 4 p left tokens) (starts : Starts [.value, .sum, .value] tokens)
    (applied : Reducer.operator.apply (tokens.take 3) = .ok result) :
    Reading.read ⟨frames, p⟩ (result :: (tokens.drop 3 ++ rest)) =
      Reading.read ⟨frames, p⟩ (tokens ++ rest) := by
  apply read_operation_here inside still ahead starts
    (fun _ ⟨op, operates, _⟩ => ⟨op, operates⟩) applied
  rintro lhs op rhs token second more clean ⟨_, ⟨⟩, isSign⟩ operates isSecond inside' still'
  obtain ⟨power, product, -⟩ := still'.cons.1.behind_value isSecond
  have tier : op.tier = 3 := by
    cases op with
    | add | sub => rfl
    | pow | mul | div => contradiction
  rw [Reading.read_operator operates, Pending.operator?_add rfl tier, Option.bind_some,
    Reading.read_value isSecond]
  refine inside'.read_sameSum ⟨rfl, rfl, ?_⟩ (power (by decide)) (product (by decide)) (by decide)
    still'.cons.2
  simp [Pending.sumValue, Pending.productValue, Pending.chainValue, clean.signs, clean.chain,
    clean.product, clean.sum, Pending.join, Pending.start]

end Here

theorem read_here {count : Nat} {rule : Rule} (isRule : operatorRules[count]? = some rule)
    {tokens rest : List Token} (inside : Inside tokens rest) {frames : List Frame} {p : Pending}
    {left : Option Token} {result : Token} (still : Still count left tokens)
    (ahead : Ahead (count + 1) p left tokens) (here : rule.matchesHere left tokens = true)
    (applied : rule.reducer.apply (tokens.take rule.pattern.length) = .ok result) :
    Reading.read ⟨frames, p⟩ (result :: (tokens.drop rule.pattern.length ++ rest)) =
      Reading.read ⟨frames, p⟩ (tokens ++ rest) := by
  simp only [Rule.matchesHere, Bool.and_eq_true] at here
  rcases count with _ | _ | _ | _ | count
  · obtain rfl := Option.some.inj isRule
    exact read_power_here inside still ahead here.2 applied
  · obtain rfl := Option.some.inj isRule
    exact read_sign_here inside still ahead here.1 here.2 applied
  · obtain rfl := Option.some.inj isRule
    exact read_product_here inside still ahead here.2 applied
  · obtain rfl := Option.some.inj isRule
    exact read_sum_here inside still ahead here.2 applied
  · contradiction

/-- A rule for operators that fires at its leftmost match, while the rules before it match nowhere,
does not change what is read. -/
theorem read_rewritten {count : Nat} {rule : Rule} (isRule : operatorRules[count]? = some rule)
    {tokens rest : List Token} (inside : Inside tokens rest) {frames : List Frame} {p : Pending}
    {left : Option Token} {found : Rule.Match} {result : Token} (still : Still count left tokens)
    (ahead : Ahead (count + 1) p left tokens) (matched : rule.matchFrom? left tokens = some found)
    (applied : rule.reducer.apply found.matched = .ok result) :
    Reading.read ⟨frames, p⟩ (found.before ++ result :: (found.after ++ rest)) =
      Reading.read ⟨frames, p⟩ (tokens ++ rest) := by
  have member : rule ∈ Rule.standard := List.mem_append_left _ (List.mem_of_getElem? isRule)
  have bound := Rule.two_le_pattern member
  have size := Rule.matchFrom?_length matched
  -- read up to the match, which comes before the end, with `Ahead` as the invariant
  induction inside generalizing frames p left found with
  | finish =>
      rw [List.length_nil] at size
      omega
  | close closes =>
      rw [List.length_singleton] at size
      omega
  | @next token tokens rest notOpener notCloser inside ih =>
      rcases Rule.matchFrom?_cons_eq_some matched with ⟨here, rfl⟩ | ⟨later, found, matched', rfl⟩
      · exact read_here isRule (.next notOpener notCloser inside) still ahead here applied
      · -- the rule is quiet here, like those before it: read one token and go on
        have quiet : Quiet (count + 1) left (token :: tokens) := by
          intro other member
          rw [List.take_add_one, isRule, List.mem_append] at member
          rcases member with member | member
          · exact still.cons.1 other member
          · obtain rfl : other = rule := by simpa using member
            exact later
        rw [List.cons_append, List.cons_append, Reading.read_cons, Reading.read_cons]
        cases step : Reading.next? ⟨frames, p⟩ token with
        | none => rfl
        | some next =>
            have ahead' := ahead.next (by omega) quiet notOpener notCloser step
            exact ih still.cons.2 ahead' matched' applied (Rule.matchFrom?_length matched')

end ImageFormula
