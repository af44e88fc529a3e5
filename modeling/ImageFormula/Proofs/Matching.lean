import ImageFormula.Rule.Engine

/-!
# What rules match and reduce

The leftmost match of a rule cuts a token sequence in three (`Rule.matchFrom?_eq_some`), and its
absence passes to every tail (`Rule.matchFrom?_cons_eq_none`). Each standard rule has a reducer that
can take whatever the pattern matches (`Rule.apply_ok`), so flat rewriting never meets the faults of
mismatched rules.
-/

namespace ImageFormula

namespace Rule

/-- Whether the rule matches at the start of a sequence with `left` before it. -/
def matchesHere (rule : Rule) (left : Option Token) (tokens : List Token) : Bool :=
  rule.leftAllows left && matchesPattern rule.pattern tokens

theorem matchFrom?_here {rule : Rule} {left : Option Token} {tokens : List Token}
    (here : rule.matchesHere left tokens = true) :
    rule.matchFrom? left tokens =
      some ⟨[], tokens.take rule.pattern.length, tokens.drop rule.pattern.length⟩ := by
  rw [matchFrom?.eq_def]
  exact if_pos here

theorem matchFrom?_later {rule : Rule} {left : Option Token} {token : Token} {rest : List Token}
    (later : rule.matchesHere left (token :: rest) = false) :
    rule.matchFrom? left (token :: rest) =
      (rule.matchFrom? (some token) rest).map fun found =>
        { found with before := token :: found.before } := by
  rw [matchFrom?.eq_def]
  exact if_neg (by simpa [matchesHere] using later)

theorem matchFrom?_cons_eq_none {rule : Rule} {left : Option Token} {token : Token}
    {rest : List Token} (absent : rule.matchFrom? left (token :: rest) = none) :
    rule.matchesHere left (token :: rest) = false ∧ rule.matchFrom? (some token) rest = none := by
  cases here : rule.matchesHere left (token :: rest) with
  | true =>
      rw [matchFrom?_here here] at absent
      contradiction
  | false =>
      rw [matchFrom?_later here, Option.map_eq_none_iff] at absent
      exact ⟨rfl, absent⟩

theorem matchFrom?_cons_eq_some {rule : Rule} {left : Option Token} {token : Token}
    {rest : List Token} {found : Match}
    (matched : rule.matchFrom? left (token :: rest) = some found) :
    (rule.matchesHere left (token :: rest) = true ∧
      found = ⟨[], (token :: rest).take rule.pattern.length,
        (token :: rest).drop rule.pattern.length⟩) ∨
    (rule.matchesHere left (token :: rest) = false ∧
      ∃ later, rule.matchFrom? (some token) rest = some later ∧
        found = { later with before := token :: later.before }) := by
  cases here : rule.matchesHere left (token :: rest) with
  | true =>
      rw [matchFrom?_here here] at matched
      exact .inl ⟨rfl, (Option.some.inj matched).symm⟩
  | false =>
      rw [matchFrom?_later here] at matched
      obtain ⟨later, found, rfl⟩ := Option.map_eq_some_iff.mp matched
      exact .inr ⟨rfl, later, found, rfl⟩

theorem matchesPattern_take {pattern : List TokenClass} {tokens : List Token}
    (matches' : matchesPattern pattern tokens = true) :
    (tokens.take pattern.length).map Token.tokenClass = pattern := by
  induction pattern generalizing tokens with
  | nil => rfl
  | cons expected pattern ih =>
      cases tokens with
      | nil => contradiction
      | cons token tokens =>
          simp only [matchesPattern, Bool.and_eq_true, beq_iff_eq] at matches'
          simp [matches'.1, ih matches'.2]

/-- A match cuts the sequence in three, and its middle part is of the classes of the pattern. -/
theorem matchFrom?_eq_some {rule : Rule} {left : Option Token} {tokens : List Token}
    {found : Match} (matched : rule.matchFrom? left tokens = some found) :
    tokens = found.before ++ (found.matched ++ found.after) ∧
      found.matched.map Token.tokenClass = rule.pattern := by
  induction tokens generalizing left found with
  | nil =>
      rw [matchFrom?.eq_def] at matched
      split at matched
      · rename_i here
        obtain rfl := Option.some.inj matched
        simp only [Bool.and_eq_true] at here
        exact ⟨by simp, matchesPattern_take here.2⟩
      · contradiction
  | cons token rest ih =>
      rcases matchFrom?_cons_eq_some matched with ⟨here, rfl⟩ | ⟨-, later, found, rfl⟩
      · simp only [matchesHere, Bool.and_eq_true] at here
        exact ⟨by simp, matchesPattern_take here.2⟩
      · obtain ⟨split, classes⟩ := ih found
        exact ⟨by rw [split]; rfl, classes⟩

theorem matchFrom?_length {rule : Rule} {left : Option Token} {tokens : List Token}
    {found : Match} (matched : rule.matchFrom? left tokens = some found) :
    found.before.length + (rule.pattern.length + found.after.length) = tokens.length := by
  obtain ⟨split, classes⟩ := matchFrom?_eq_some matched
  rw [split, ← classes]
  simp

end Rule

/-! ## Reducers on what patterns match -/

/-- The kinds of tokens of a class. -/
def TokenClass.Holds : TokenClass → TokenKind → Prop
  | .value, kind => ∃ expr, kind = .value expr
  | .power, kind => kind = .operator .pow
  | .product, kind => ∃ op, kind = .operator op ∧ op.tier = 2
  | .sum, kind => ∃ op, kind = .operator op ∧ op.isSign = true
  | .bracketOpen, kind => kind = .bracketOpen
  | .bracketClose, kind => kind = .bracketClose
  | .separator, kind => kind = .separator
  | .functionStart, kind => ∃ name, kind = .functionStart name

theorem Token.holds_of_class {token : Token} {expected : TokenClass}
    (isClass : token.tokenClass = expected) : expected.Holds token.kind := by
  subst isClass
  unfold Token.tokenClass
  cases token.kind with
  | value expr => exact ⟨expr, rfl⟩
  | operator op =>
      cases op with
      | pow => rfl
      | mul | div | add | sub => exact ⟨_, rfl, rfl⟩
  | bracketOpen | bracketClose | separator => rfl
  | functionStart name => exact ⟨name, rfl⟩

namespace Reducer

theorem apply_operator {first token second : Token} {lhs rhs : Expr} {op : Operator}
    (left : first.kind = .value lhs) (operates : token.kind = .operator op)
    (right : second.kind = .value rhs) :
    operator.apply [first, token, second] =
      .ok (valueOf [first, token, second] (.binary lhs op rhs)
        (operandDepth [first, token, second] + 1)) := by
  simp [apply, reduce?, operator?, left, operates, right]

/-- A sign takes a value to its negation or to itself. -/
theorem apply_sign {token operand : Token} {expr : Expr} {op : Operator}
    (operates : token.kind = .operator op) (isSign : op.isSign = true)
    (value : operand.kind = .value expr) :
    ∃ result, sign.apply [token, operand] = .ok result ∧
      result.kind = .value (if op = .sub then expr.negate else expr) := by
  cases op with
  | add | sub => simp [apply, reduce?, sign?, operates, value, valueOf]
  | pow | mul | div => contradiction

theorem apply_brackets {opener operand closer : Token} {expr : Expr}
    (opens : opener.kind = .bracketOpen) (value : operand.kind = .value expr)
    (closes : closer.kind = .bracketClose) :
    ∃ result, brackets.apply [opener, operand, closer] = .ok result ∧
      result.kind = .value expr := by
  simp [apply, reduce?, brackets?, opens, value, closes, valueOf]

/-- A call takes its opener, its arguments and the tokens between them to the call. -/
theorem apply_call {opener : Token} {name : String} {rest : List Token} {args : List Expr}
    {expr : Expr} (opens : opener.kind = .functionStart name)
    (arguments : arguments? rest = some args)
    (called : Expr.call? (Text.lower name) opener.span args = some expr) :
    ∃ result, call.apply (opener :: rest) = .ok result ∧ result.kind = .value expr := by
  simp [apply, reduce?, call?, opens, arguments, called, valueOf]

/-- A reducer has one result. -/
theorem kind_of_apply {reducer : Reducer} {tokens : List Token} {result : Token} {kind : TokenKind}
    (reduces : ∃ token, reducer.apply tokens = .ok token ∧ token.kind = kind)
    (applied : reducer.apply tokens = .ok result) : result.kind = kind := by
  obtain ⟨token, applied', isKind⟩ := reduces
  rw [← Except.ok.inj (applied'.symm.trans applied)]
  exact isKind

theorem reduce?_of_apply {reducer : Reducer} {tokens : List Token} {result : Token}
    (applied : reducer.apply tokens = .ok result) : reducer.reduce? tokens = some result := by
  unfold apply at applied
  split at applied
  · rename_i found reduced
    rw [reduced, Except.ok.inj applied]
  · contradiction

/-- What a reducer puts is a value for the tokens that it takes, at most one level deeper. -/
theorem exists_valueOf {reducer : Reducer} {tokens : List Token} {result : Token}
    (applied : reducer.apply tokens = .ok result) :
    ∃ expr depth, result = valueOf tokens expr depth ∧ operandDepth tokens ≤ depth ∧
      depth ≤ operandDepth tokens + 1 := by
  have reduced := reduce?_of_apply applied
  cases reducer with
  | operator =>
      simp only [reduce?, operator?] at reduced
      split at reduced
      · exact ⟨_, _, (Option.some.inj reduced).symm, Nat.le_succ _, Nat.le_refl _⟩
      · contradiction
  | sign =>
      simp only [reduce?, sign?] at reduced
      split at reduced
      · exact ⟨_, _, (Option.some.inj reduced).symm, Nat.le_succ _, Nat.le_refl _⟩
      · exact ⟨_, _, (Option.some.inj reduced).symm, Nat.le_refl _, Nat.le_succ _⟩
      · contradiction
  | brackets =>
      simp only [reduce?, brackets?] at reduced
      split at reduced
      · exact ⟨_, _, (Option.some.inj reduced).symm, Nat.le_refl _, Nat.le_succ _⟩
      · contradiction
  | call =>
      simp only [reduce?, call?] at reduced
      split at reduced
      · contradiction
      · split at reduced
        · obtain ⟨expr, -, rfl⟩ := Option.map_eq_some_iff.mp reduced
          exact ⟨_, _, rfl, Nat.le_succ _, Nat.le_refl _⟩
        · contradiction

theorem apply_eq_ok {reducer : Reducer} {tokens : List Token} {result : Token}
    (applied : reducer.apply tokens = .ok result) :
    (∃ expr, result.kind = .value expr) ∧ operandDepth tokens ≤ result.depth ∧
      result.depth ≤ operandDepth tokens + 1 := by
  obtain ⟨expr, depth, rfl, least, most⟩ := exists_valueOf applied
  exact ⟨⟨expr, rfl⟩, least, most⟩

/-- What a reducer puts stands in the hull of what it takes. -/
theorem span_of_apply {reducer : Reducer} {tokens : List Token} {result : Token}
    (applied : reducer.apply tokens = .ok result) :
    result.span = (Token.hull? tokens).getD ⟨0, 0⟩ := by
  obtain ⟨expr, depth, rfl, -, -⟩ := exists_valueOf applied
  rfl

end Reducer

/-- A call has an argument for every value between its brackets. -/
theorem Reducer.arguments?_of_classes {tokens : List Token} {classes : List TokenClass}
    (isClasses : tokens.map Token.tokenClass = classes)
    (allowed : ∀ c ∈ classes, c = .value ∨ c = .separator ∨ c = .bracketClose) :
    ∃ args, arguments? tokens = some args ∧ args.length = classes.count .value := by
  induction tokens generalizing classes with
  | nil =>
      obtain rfl := isClasses
      exact ⟨[], rfl, rfl⟩
  | cons token rest ih =>
      obtain rfl := isClasses
      obtain ⟨args, arguments, count⟩ := ih rfl fun c member => allowed c (.tail _ member)
      have holds : token.tokenClass.Holds token.kind := Token.holds_of_class rfl
      rcases allowed token.tokenClass (.head _) with isClass | isClass | isClass
      · rw [isClass] at holds
        obtain ⟨expr, value⟩ := holds
        exact ⟨expr :: args, by simp [arguments?, value, arguments], by simp [isClass, count]⟩
      · rw [isClass] at holds
        have separates : token.kind = .separator := holds
        exact ⟨args, by simp [arguments?, separates, arguments], by simp [isClass, count]⟩
      · rw [isClass] at holds
        have closes : token.kind = .bracketClose := holds
        exact ⟨args, by simp [arguments?, closes, arguments], by simp [isClass, count]⟩

theorem Expr.call?_isSome (name : String) (span : Span) {args : List Expr}
    (few : args.length ≤ 3) : ∃ expr, Expr.call? name span args = some expr := by
  match args with
  | [] | [_] | [_, _] | [_, _, _] => exact ⟨_, rfl⟩
  | _ :: _ :: _ :: _ :: _ =>
      simp only [List.length_cons] at few
      omega

private theorem apply_operator_of_classes {tokens : List Token} {middle : TokenClass}
    (classes : tokens.map Token.tokenClass = [.value, middle, .value])
    (isOperator : ∀ kind, middle.Holds kind → ∃ op, kind = .operator op) :
    ∃ result, Reducer.operator.apply tokens = .ok result := by
  obtain ⟨first, _, rfl, left, classes⟩ := List.map_eq_cons_iff.mp classes
  obtain ⟨token, _, rfl, operates, classes⟩ := List.map_eq_cons_iff.mp classes
  obtain ⟨second, _, rfl, right, classes⟩ := List.map_eq_cons_iff.mp classes
  obtain rfl := List.map_eq_nil_iff.mp classes
  obtain ⟨lhs, left⟩ := Token.holds_of_class left
  obtain ⟨op, operates⟩ := isOperator _ (Token.holds_of_class operates)
  obtain ⟨rhs, right⟩ := Token.holds_of_class right
  exact ⟨_, Reducer.apply_operator left operates right⟩

private theorem apply_call_of_classes {tokens : List Token} {classes : List TokenClass}
    (isClasses : tokens.map Token.tokenClass = .functionStart :: classes)
    (allowed : ∀ c ∈ classes, c = .value ∨ c = .separator ∨ c = .bracketClose)
    (few : classes.count .value ≤ 3) :
    ∃ result, Reducer.call.apply tokens = .ok result := by
  obtain ⟨opener, rest, rfl, opens, isClasses⟩ := List.map_eq_cons_iff.mp isClasses
  obtain ⟨name, opens⟩ := Token.holds_of_class opens
  obtain ⟨args, arguments, count⟩ := Reducer.arguments?_of_classes isClasses allowed
  have few : args.length ≤ 3 := by omega
  obtain ⟨expr, called⟩ := Expr.call?_isSome (Text.lower name) opener.span few
  obtain ⟨result, applied, -⟩ := Reducer.apply_call opens arguments called
  exact ⟨result, applied⟩

/-- Every standard rule matches two tokens at least. -/
theorem Rule.two_le_pattern {rule : Rule} (member : rule ∈ Rule.standard) :
    2 ≤ rule.pattern.length := by
  simp only [standard, List.mem_cons, List.not_mem_nil, or_false] at member
  rcases member with rfl | rfl | rfl | rfl | rfl | rfl | rfl | rfl | rfl <;> decide

/-- Every standard rule can reduce what its pattern matches. -/
theorem Rule.apply_ok {rule : Rule} {tokens : List Token} (member : rule ∈ Rule.standard)
    (classes : tokens.map Token.tokenClass = rule.pattern) :
    ∃ result, rule.reducer.apply tokens = .ok result := by
  simp only [standard, List.mem_cons, List.not_mem_nil, or_false] at member
  rcases member with rfl | rfl | rfl | rfl | rfl | rfl | rfl | rfl | rfl
  · exact apply_operator_of_classes classes fun _ holds => ⟨_, holds⟩
  · obtain ⟨token, _, rfl, operates, classes⟩ := List.map_eq_cons_iff.mp classes
    obtain ⟨operand, _, rfl, value, classes⟩ := List.map_eq_cons_iff.mp classes
    obtain rfl := List.map_eq_nil_iff.mp classes
    obtain ⟨op, operates, isSign⟩ := Token.holds_of_class operates
    obtain ⟨expr, value⟩ := Token.holds_of_class value
    obtain ⟨result, applied, -⟩ := Reducer.apply_sign operates isSign value
    exact ⟨result, applied⟩
  · exact apply_operator_of_classes classes fun _ ⟨op, operates, _⟩ => ⟨op, operates⟩
  · exact apply_operator_of_classes classes fun _ ⟨op, operates, _⟩ => ⟨op, operates⟩
  · obtain ⟨opener, _, rfl, opens, classes⟩ := List.map_eq_cons_iff.mp classes
    obtain ⟨operand, _, rfl, value, classes⟩ := List.map_eq_cons_iff.mp classes
    obtain ⟨closer, _, rfl, closes, classes⟩ := List.map_eq_cons_iff.mp classes
    obtain rfl := List.map_eq_nil_iff.mp classes
    obtain ⟨expr, value⟩ := Token.holds_of_class value
    obtain ⟨result, applied, -⟩ := Reducer.apply_brackets (Token.holds_of_class opens) value
      (Token.holds_of_class closes)
    exact ⟨result, applied⟩
  all_goals exact apply_call_of_classes classes (by decide) (by decide)

end ImageFormula
