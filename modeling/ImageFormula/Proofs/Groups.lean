import ImageFormula.Proofs.Resolving
import ImageFormula.Proofs.Rewriting

/-!
# Resolving a group

The engine resolves one group at a time: a bracket with nothing but values, operators and
separators between its opener and its closer, or a formula in which no bracket is left. Resolving
a group does not change what is read (`Group.resolve`), and a group that is normal and still
more than a value cannot be read at all (`Group.read_normal`).
-/

namespace ImageFormula

/-- `Group r tokens rest`: `tokens` are a group, or what is left of it, between what has been read
by `r` and what follows. -/
inductive Group : Reading → List Token → List Token → Prop
  | value {r : Reading} {token : Token} {expr : Expr} {rest : List Token}
      (isValue : token.kind = .value expr) : Group r [token] rest
  | bracket {r : Reading} {opener : Token} {tokens rest : List Token}
      (opens : opener.isOpener = true) (inside : Inside tokens rest) :
      Group r (opener :: tokens) rest
  | formula {tokens : List Token} (inside : Inside tokens []) : Group .start tokens []

namespace Inside

variable {tokens rest : List Token}

/-- Nothing follows the closer. -/
theorem after_closer {token : Token} (inside : Inside (token :: tokens) rest)
    (closes : token.kind = .bracketClose) : tokens = [] := by
  cases inside with
  | close _ => rfl
  | next _ notCloser _ => simp [Token.isCloser, closes] at notCloser

/-- Tokens other than closers can be dropped from the front. -/
theorem drop {taken : List Token} (inside : Inside (taken ++ tokens) rest)
    (plain : ∀ token ∈ taken, token.kind ≠ .bracketClose) : Inside tokens rest := by
  induction taken with
  | nil => exact inside
  | cons token taken ih =>
      exact ih (inside.tail (plain token (.head _))) fun t member => plain t (.tail _ member)

/-- A value may stand in place of tokens that are no brackets. -/
theorem replace {before taken after : List Token} {value : Token} {expr : Expr}
    (inside : Inside (before ++ (taken ++ after)) rest) (isValue : value.kind = .value expr)
    (plain : ∀ token ∈ taken, token.kind ≠ .bracketClose) (nonempty : taken ≠ []) :
    Inside (before ++ value :: after) rest := by
  induction before with
  | nil =>
      rw [List.nil_append] at inside
      exact .next (by simp [Token.isOpener, isValue]) (by simp [Token.isCloser, isValue])
        (inside.drop plain)
  | cons token before ih =>
      rw [List.cons_append] at inside ⊢
      generalize tail : before ++ (taken ++ after) = tokens at inside ih
      cases inside with
      | close closes => simp [nonempty] at tail
      | next notOpener notCloser inside => exact .next notOpener notCloser (ih inside)

theorem not_opener (inside : Inside tokens rest) : ∀ token ∈ tokens, token.isOpener = false := by
  induction inside with
  | finish => simp
  | close closes => simp [Token.isOpener, closes]
  | next notOpener _ _ ih => simpa [notOpener] using ih

/-- The rules for brackets start at an opener, so they match nowhere inside. -/
theorem bracketRule_absent (inside : Inside tokens rest) {rule : Rule} (left : Option Token)
    (member : rule ∈ bracketRules) : rule.matchFrom? left tokens = none := by
  cases matched : rule.matchFrom? left tokens with
  | none => rfl
  | some found =>
      obtain ⟨rfl, classes⟩ := Rule.matchFrom?_eq_some matched
      -- the first class of such a pattern is that of an opener
      obtain ⟨opener, more, taken, opens⟩ :
          ∃ opener more, found.matched = opener :: more ∧ opener.isOpener = true := by
        simp only [bracketRules, List.mem_cons, List.not_mem_nil, or_false] at member
        rcases member with rfl | rfl | rfl | rfl | rfl
        · obtain ⟨opener, more, taken, isClass, -⟩ := List.map_eq_cons_iff.mp classes
          have kind : opener.kind = .bracketOpen := Token.holds_of_class isClass
          exact ⟨opener, more, taken, by simp [Token.isOpener, kind]⟩
        all_goals
          obtain ⟨opener, more, taken, isClass, -⟩ := List.map_eq_cons_iff.mp classes
          obtain ⟨name, kind⟩ := Token.holds_of_class isClass
          exact ⟨opener, more, taken, by simp [Token.isOpener, kind]⟩
      have notOpener := inside.not_opener opener (by simp [taken])
      rw [opens] at notOpener
      contradiction

end Inside

theorem Derives.ofValue {token : Token} {expr : Expr} (isValue : token.kind = .value expr) :
    Derives .sum [token] expr :=
  .sum (.product (.chain (.unsigned (.run (.value isValue)))))

/-! ## The rules for brackets and calls -/

section Starts

variable {classes : List TokenClass} {tokens rest : List Token}

theorem Starts.operand (starts : Starts (.value :: classes) tokens) :
    ∃ operand expr more, tokens = operand :: more ∧ operand.kind = .value expr ∧
      Starts classes more := by
  obtain ⟨operand, more, rfl, isClass, starts⟩ := starts.cons
  obtain ⟨expr, isValue⟩ := Token.holds_of_class isClass
  exact ⟨operand, expr, more, rfl, isValue, starts⟩

theorem Starts.comma (starts : Starts (.separator :: classes) tokens) :
    ∃ comma more, tokens = comma :: more ∧ comma.kind = .separator ∧ Starts classes more := by
  obtain ⟨comma, more, rfl, isClass, starts⟩ := starts.cons
  exact ⟨comma, more, rfl, Token.holds_of_class isClass, starts⟩

theorem Starts.closer (starts : Starts [.bracketClose] tokens) (inside : Inside tokens rest) :
    ∃ closer, tokens = [closer] ∧ closer.kind = .bracketClose := by
  obtain ⟨closer, more, rfl, isClass, -⟩ := starts.cons
  have closes : closer.kind = .bracketClose := Token.holds_of_class isClass
  obtain rfl := inside.after_closer closes
  exact ⟨closer, rfl, closes⟩

theorem Starts.call {opener : Token}
    (starts : Starts (.functionStart :: classes) (opener :: tokens)) :
    (∃ name, opener.kind = .functionStart name) ∧ Starts classes tokens := by
  obtain ⟨_, _, same, isClass, starts⟩ := starts.cons
  obtain ⟨rfl, rfl⟩ := List.cons.inj same
  exact ⟨Token.holds_of_class isClass, starts⟩

end Starts

/-- A rule for brackets that matches takes the whole group, and its value is the tree that the
grammar assigns to the group. -/
theorem bracketRule_derives {rule : Rule} (member : rule ∈ bracketRules) {opener result : Token}
    {tokens rest : List Token} (inside : Inside tokens rest)
    (starts : Starts rule.pattern (opener :: tokens))
    (applied : rule.reducer.apply ((opener :: tokens).take rule.pattern.length) = .ok result) :
    (opener :: tokens).drop rule.pattern.length = [] ∧
      ∃ expr, result.kind = .value expr ∧ Derives .primary (opener :: tokens) expr := by
  simp only [bracketRules, List.mem_cons, List.not_mem_nil, or_false] at member
  -- a bracket, and the calls with none, one, two and three arguments
  rcases member with rfl | rfl | rfl | rfl | rfl
  · obtain ⟨_, _, same, isClass, starts⟩ := starts.cons
    obtain ⟨rfl, rfl⟩ := List.cons.inj same
    have opens : opener.kind = .bracketOpen := Token.holds_of_class isClass
    obtain ⟨operand, expr, _, rfl, isValue, starts⟩ := starts.operand
    obtain ⟨closer, rfl, closes⟩ := starts.closer (inside.tail (by simp [isValue]))
    have isResult := Reducer.kind_of_apply (Reducer.apply_brackets opens isValue closes) applied
    exact ⟨rfl, expr, isResult, .brackets opens closes (.ofValue isValue)⟩
  · obtain ⟨⟨name, opens⟩, starts⟩ := starts.call
    obtain ⟨closer, rfl, closes⟩ := starts.closer inside
    have args : Reducer.arguments? [closer] = some [] := by simp [Reducer.arguments?, closes]
    have isResult := Reducer.kind_of_apply (Reducer.apply_call opens args rfl) applied
    exact ⟨rfl, _, isResult, .intrinsic opens closes⟩
  · obtain ⟨⟨name, opens⟩, starts⟩ := starts.call
    obtain ⟨operand, expr, _, rfl, isValue, starts⟩ := starts.operand
    obtain ⟨closer, rfl, closes⟩ := starts.closer (inside.tail (by simp [isValue]))
    have args : Reducer.arguments? [operand, closer] = some [expr] := by
      simp [Reducer.arguments?, isValue, closes]
    have isResult := Reducer.kind_of_apply (Reducer.apply_call opens args rfl) applied
    exact ⟨rfl, _, isResult, .unary opens closes (.ofValue isValue)⟩
  · obtain ⟨⟨name, opens⟩, starts⟩ := starts.call
    obtain ⟨first, lhs, _, rfl, isFirst, starts⟩ := starts.operand
    obtain ⟨comma, _, rfl, separates, starts⟩ := starts.comma
    obtain ⟨second, rhs, _, rfl, isSecond, starts⟩ := starts.operand
    have inside' := (inside.tail (by simp [isFirst])).tail (by simp [separates])
    obtain ⟨closer, rfl, closes⟩ := starts.closer (inside'.tail (by simp [isSecond]))
    have args : Reducer.arguments? [first, comma, second, closer] = some [lhs, rhs] := by
      simp [Reducer.arguments?, isFirst, separates, isSecond, closes]
    have isResult := Reducer.kind_of_apply (Reducer.apply_call opens args rfl) applied
    exact ⟨rfl, _, isResult,
      .binaryCall opens separates closes (.ofValue isFirst) (.ofValue isSecond)⟩
  · obtain ⟨⟨name, opens⟩, starts⟩ := starts.call
    obtain ⟨first, lhs, _, rfl, isFirst, starts⟩ := starts.operand
    obtain ⟨comma, _, rfl, separates, starts⟩ := starts.comma
    obtain ⟨second, rhs, _, rfl, isSecond, starts⟩ := starts.operand
    obtain ⟨comma', _, rfl, separates', starts⟩ := starts.comma
    obtain ⟨third, last, _, rfl, isThird, starts⟩ := starts.operand
    have inside' := (((inside.tail (by simp [isFirst])).tail (by simp [separates])).tail
      (by simp [isSecond])).tail (by simp [separates'])
    obtain ⟨closer, rfl, closes⟩ := starts.closer (inside'.tail (by simp [isThird]))
    have args : Reducer.arguments? [first, comma, second, comma', third, closer] =
        some [lhs, rhs, last] := by
      simp [Reducer.arguments?, isFirst, separates, isSecond, separates', isThird, closes]
    have isResult := Reducer.kind_of_apply (Reducer.apply_call opens args rfl) applied
    exact ⟨rfl, _, isResult, .tertiary opens separates separates' closes (.ofValue isFirst)
      (.ofValue isSecond) (.ofValue isThird)⟩

/-! ## Steps inside a group -/

theorem free_opener {opener : Token} (opens : opener.isOpener = true) : Free (some opener) := by
  cases kind : opener.kind <;> simp [Token.isOpener, kind] at opens <;>
    simp [Free, Rule.leftAllows, Rule.sign, Token.tokenClass, kind, TokenKind.tokenClass]

theorem Ahead.start {count : Nat} {left : Option Token} {tokens : List Token} (free : Free left) :
    Ahead count .start left tokens :=
  ⟨free, .inl (Pending.clean_start count)⟩

/-- A reading is at the start of a sum after an opener, or has failed. -/
theorem Reading.next?_opener {opener : Token} (opens : opener.isOpener = true) (r : Reading) :
    r.next? opener = none ∨ ∃ frames, r.next? opener = some ⟨frames, .start⟩ := by
  cases kind : opener.kind with
  | bracketOpen =>
      cases phase : r.top.phase <;> simp [Reading.next?, kind, Reading.open?, phase]
  | functionStart name =>
      cases phase : r.top.phase <;> simp [Reading.next?, kind, Reading.open?, phase]
  | value expr | operator op | separator | bracketClose => simp [Token.isOpener, kind] at opens

/-- The two sorts of steps. -/
theorem Step.rule {tokens next : List Token} {value : Token} (step : Step tokens value next) :
    (∃ count rule found, operatorRules[count]? = some rule ∧ Still count none tokens ∧
      rule.matchFrom? none tokens = some found ∧ rule.reducer.apply found.matched = .ok value ∧
      next = found.before ++ value :: found.after) ∨
    (∃ rule found, rule ∈ bracketRules ∧ rule.matchFrom? none tokens = some found ∧
      rule.reducer.apply found.matched = .ok value ∧
      next = found.before ++ value :: found.after) := by
  obtain ⟨first, applied⟩ := step
  rename_i rule found
  obtain ⟨position, isRule, matched, absent⟩ := Engine.firstMatch?_eq_some first
  rw [standard_eq_append] at isRule absent
  by_cases bound : position < operatorRules.length
  · rw [List.getElem?_append_left bound] at isRule
    rw [List.take_append_of_le_length (by omega)] at absent
    exact .inl ⟨position, rule, found, isRule, absent, matched, applied, rfl⟩
  · rw [List.getElem?_append_right (by omega)] at isRule
    exact .inr ⟨rule, found, List.mem_of_getElem? isRule, matched, applied, rfl⟩

/-- The patterns of the rules for operators have no brackets. -/
theorem operatorRules_plain : ∀ rule ∈ operatorRules, ∀ c ∈ rule.pattern,
    c ≠ .bracketOpen ∧ c ≠ .functionStart ∧ c ≠ .bracketClose := by
  decide

theorem operatorRules_nonempty : ∀ rule ∈ operatorRules, rule.pattern ≠ [] := by
  decide

/-- A rule for operators leaves the inside of a group without brackets. -/
theorem operatorRule_inside {rule : Rule} (member : rule ∈ operatorRules) {left : Option Token}
    {tokens rest : List Token} {found : Rule.Match} {value : Token} {expr : Expr}
    (matched : rule.matchFrom? left tokens = some found) (isValue : value.kind = .value expr)
    (inside : Inside tokens rest) : Inside (found.before ++ value :: found.after) rest := by
  obtain ⟨rfl, classes⟩ := Rule.matchFrom?_eq_some matched
  have nonempty : found.matched ≠ [] := by
    intro none
    rw [none] at classes
    exact operatorRules_nonempty rule member classes.symm
  refine inside.replace isValue ?_ nonempty
  intro token inMatch closes
  have isClass : token.tokenClass ∈ rule.pattern := classes ▸ List.mem_map_of_mem inMatch
  exact (operatorRules_plain rule member _ isClass).2.2 (by rw [Token.tokenClass, closes]; rfl)

theorem Token.tokenClass_of_isOpener {token : Token} (opens : token.isOpener = true) :
    token.tokenClass = .bracketOpen ∨ token.tokenClass = .functionStart := by
  cases kind : token.kind <;> simp [Token.isOpener, kind] at opens <;>
    simp [Token.tokenClass, kind, TokenKind.tokenClass]

/-- A rule for operators does not fire at an opener. -/
theorem operatorRule_later {rule : Rule} (member : rule ∈ operatorRules) {opener : Token}
    {left : Option Token} {tokens : List Token} (opens : opener.isOpener = true) :
    rule.matchesHere left (opener :: tokens) = false := by
  cases here : rule.matchesHere left (opener :: tokens) with
  | false => rfl
  | true =>
      simp only [Rule.matchesHere, Bool.and_eq_true] at here
      have isClass : opener.tokenClass ∈ rule.pattern := by
        cases pattern : rule.pattern with
        | nil => exact absurd pattern (operatorRules_nonempty rule member)
        | cons expected classes =>
            rw [pattern] at here
            obtain ⟨_, _, same, isClass, -⟩ := Starts.cons here.2
            obtain ⟨rfl, rfl⟩ := List.cons.inj same
            exact isClass ▸ List.mem_cons_self
      have plain := operatorRules_plain rule member _ isClass
      rcases Token.tokenClass_of_isOpener opens with isClass | isClass
      · exact absurd isClass plain.1
      · exact absurd isClass plain.2.1

namespace Group

variable {r : Reading} {tokens rest next : List Token} {value : Token}

/-- A step of the standard rules in a group leaves a group that is read alike. -/
theorem step (group : Group r tokens rest) (isStep : Step tokens value next) :
    Group r next rest ∧ r.read (next ++ rest) = r.read (tokens ++ rest) := by
  obtain ⟨expr, isValue⟩ := isStep.isValue
  have shorter := isStep.shorter
  rcases isStep.rule with ⟨count, rule, found, isRule, still, matched, applied, rfl⟩ |
    ⟨rule, found, member, matched, applied, rfl⟩
  · have member := List.mem_of_getElem? isRule
    cases group with
    | value isValue' => simp at shorter
    | bracket opens inside =>
        -- a rule for operators fires behind the opener, at the start of a sum
        rcases Rule.matchFrom?_cons_eq_some matched with ⟨here, -⟩ | ⟨-, later, matchedLater, rfl⟩
        · rw [operatorRule_later member opens] at here
          contradiction
        · refine ⟨.bracket opens (operatorRule_inside member matchedLater isValue inside), ?_⟩
          simp only [List.cons_append, List.append_assoc, Reading.read_cons]
          rcases Reading.next?_opener opens r with failed | ⟨frames, opened⟩
          · rw [failed]
            rfl
          · rw [opened]
            exact read_rewritten isRule inside still.cons.2 (.start (free_opener opens))
              matchedLater applied
    | formula inside =>
        refine ⟨.formula (operatorRule_inside member matched isValue inside), ?_⟩
        rw [List.append_assoc, List.cons_append]
        exact read_rewritten isRule inside still (.start rfl) matched applied
  · cases group with
    | value isValue' => simp at shorter
    | formula inside =>
        rw [inside.bracketRule_absent none member] at matched
        contradiction
    | bracket opens inside =>
        -- a rule for brackets fires at the opener, and leaves nothing but the value
        rcases Rule.matchFrom?_cons_eq_some matched with ⟨here, rfl⟩ | ⟨-, later, matchedLater, -⟩
        · simp only [Rule.matchesHere, Bool.and_eq_true] at here
          obtain ⟨nothing, expr, isValue, derives⟩ :=
            bracketRule_derives member inside here.2 applied
          rw [nothing]
          refine ⟨.value isValue, ?_⟩
          rw [derives.reads r rest]
          exact (Derives.value isValue).reads r rest
        · rw [inside.bracketRule_absent _ member] at matchedLater
          contradiction

/-- Resolving a group does not change what is read. -/
theorem resolve {limit : Nat} {result : List Token} (group : Group r tokens rest)
    (resolved : (Engine.standard limit).resolve tokens = .ok result) :
    Normal result ∧ Group r result rest ∧ r.read (result ++ rest) = r.read (tokens ++ rest) := by
  refine Engine.resolve_invariant (fun current => Group r current rest ∧
    r.read (current ++ rest) = r.read (tokens ++ rest)) ?_ resolved ⟨group, rfl⟩
  rintro current value next isStep ⟨group, same⟩
  obtain ⟨group, same'⟩ := group.step isStep
  exact ⟨group, same'.trans same⟩

end Group

/-! ## Normal groups -/

namespace Inside

variable {token left : Token} {tokens rest : List Token} {frames : List Frame} {p : Pending}
  {run expr : Expr}

/-- Where no rule for operators matches, a value that can be read on is followed by a separator, a
closer or nothing. -/
theorem read_holding (inside : Inside tokens rest) (holds : p.phase = .holding run)
    (value : left.kind = .value expr) {before : Option Token}
    (still : Still 4 before (left :: tokens))
    (reads : (Reading.read ⟨frames, p⟩ (tokens ++ rest)).isSome) :
    (tokens = [] ∧ rest = []) ∨ (∃ closer, tokens = [closer] ∧ closer.kind = .bracketClose) ∨
      ∃ comma more, tokens = comma :: more ∧ comma.kind = .separator ∧ Inside more rest := by
  obtain ⟨quiet, still⟩ := still.cons
  cases inside with
  | finish => exact .inl ⟨rfl, rfl⟩
  | close closes => exact .inr (.inl ⟨_, rfl, closes⟩)
  | @next token tokens _ notOpener notCloser inside =>
      have inside' := Inside.next notOpener notCloser inside
      rw [List.cons_append] at reads
      cases kind : token.kind with
      | separator => exact .inr (.inr ⟨token, tokens, rfl, kind, inside⟩)
      | value expr =>
          rw [Reading.read_value kind] at reads
          simp [Pending.operand?, holds] at reads
      | operator op =>
          -- no operand comes after the operator, or its rule would match at the value
          have absent : ¬ Starts [token.tokenClass, .value] (token :: tokens) := by
            obtain ⟨power, product, sum⟩ := quiet.behind_value value
            rw [Token.tokenClass, kind]
            cases op with
            | pow => exact power (by decide)
            | mul | div => exact product (by decide)
            | add | sub => exact sum (by decide)
          rw [inside'.read_operator_eq_none holds kind absent (by decide) still] at reads
          contradiction
      | bracketOpen => simp [Token.isOpener, kind] at notOpener
      | functionStart name => simp [Token.isOpener, kind] at notOpener
      | bracketClose => simp [Token.isCloser, kind] at notCloser

/-- Where no rule for operators matches, a sum that can be read is a single value; or there is none
and the bracket is closed. -/
theorem read_start (inside : Inside tokens rest) {before : Option Token} (free : Free before)
    (still : Still 4 before tokens)
    (reads : (Reading.read ⟨frames, .start⟩ (tokens ++ rest)).isSome) :
    (∃ closer, tokens = [closer] ∧ closer.kind = .bracketClose) ∨
      ∃ operand expr more, tokens = operand :: more ∧ operand.kind = .value expr ∧
        (Reading.read ⟨frames, { Pending.start with phase := .holding expr }⟩
          (more ++ rest)).isSome ∧
        ((more = [] ∧ rest = []) ∨ (∃ closer, more = [closer] ∧ closer.kind = .bracketClose) ∨
          ∃ comma more', more = comma :: more' ∧ comma.kind = .separator ∧ Inside more' rest) := by
  cases inside with
  | finish => cases frames <;> simp [Reading.read, Reading.result?, Pending.start] at reads
  | close closes => exact .inl ⟨_, rfl, closes⟩
  | @next token tokens _ notOpener notCloser inside =>
      rw [List.cons_append] at reads
      cases kind : token.kind with
      | value expr =>
          rw [Reading.read_value kind] at reads
          exact .inr ⟨token, expr, tokens, rfl, kind, reads,
            inside.read_holding rfl kind still reads⟩
      | operator op =>
          obtain ⟨quiet, still⟩ := still.cons
          rw [Reading.read_operator kind] at reads
          cases isSign : op.isSign with
          | false => simp [Pending.operator?, Pending.start, isSign] at reads
          | true =>
              simp only [Pending.operator?, Pending.start, isSign, if_true, Option.bind_some]
                at reads
              rw [inside.read_incomplete (by simp) (by simp [Pending.start]) (free_operator kind)
                (quiet.no_operand (by omega) free kind isSign) (by omega) still] at reads
              contradiction
      | separator =>
          rw [Reading.read_cons] at reads
          cases frames <;> simp [Reading.next?, kind, Reading.separate?, Pending.start] at reads
      | bracketOpen => simp [Token.isOpener, kind] at notOpener
      | functionStart name => simp [Token.isOpener, kind] at notOpener
      | bracketClose => simp [Token.isCloser, kind] at notCloser

/-- Where no rule for operators matches, an argument that can be read is a single value before a
separator or the closer of the call; or the call has no arguments. -/
theorem read_argument {outer : Pending} {call : String × Span} {args : List Expr}
    (inside : Inside tokens rest) {before : Option Token} (free : Free before)
    (still : Still 4 before tokens)
    (reads : (Reading.read ⟨⟨outer, some call, args⟩ :: frames, .start⟩ (tokens ++ rest)).isSome) :
    (args = [] ∧ ∃ closer, tokens = [closer] ∧ closer.kind = .bracketClose) ∨
      (args.length < 3 ∧ ∃ operand expr closer, tokens = [operand, closer] ∧
        operand.kind = .value expr ∧ closer.kind = .bracketClose) ∨
      ∃ operand expr comma more, tokens = operand :: comma :: more ∧ operand.kind = .value expr ∧
        comma.kind = .separator ∧ Inside more rest ∧ Still 4 (some comma) more ∧
        (Reading.read ⟨⟨outer, some call, args ++ [expr]⟩ :: frames, .start⟩
          (more ++ rest)).isSome := by
  rcases inside.read_start free still reads with ⟨closer, rfl, closes⟩ |
    ⟨operand, expr, more, rfl, value, reads, ⟨rfl, rfl⟩ | ⟨closer, rfl, closes⟩ |
      ⟨comma, more', rfl, separates, inside⟩⟩
  · refine .inl ⟨?_, closer, rfl, closes⟩
    rw [List.singleton_append, Reading.read_cons] at reads
    cases args with
    | nil => rfl
    | cons arg args =>
        simp [Reading.next?, closes, Reading.close?, Frame.value?, Pending.start] at reads
  · simp [Reading.read, Reading.result?] at reads
  · refine .inr (.inl ⟨?_, operand, expr, closer, rfl, value, closes⟩)
    rw [List.singleton_append, Reading.read_cons] at reads
    rcases args with _ | ⟨_, _ | ⟨_, _ | ⟨_, args⟩⟩⟩
    · simp
    · simp
    · simp
    · simp [Reading.next?, closes, Reading.close?, Frame.value?, Expr.call?] at reads
  · refine .inr (.inr ⟨operand, expr, comma, more', rfl, value, separates, inside, ?_, ?_⟩)
    · exact still.cons.2.cons.2
    · rw [List.cons_append, Reading.read_separator separates rfl] at reads
      exact reads

end Inside

/-- A call with three arguments takes no fourth. -/
theorem Inside.read_overfull {tokens rest : List Token} {outer : Pending} {call : String × Span}
    {args : List Expr} {frames : List Frame} (inside : Inside tokens rest)
    {before : Option Token} (free : Free before)
    (still : Still 4 before tokens) (full : 3 ≤ args.length) :
    Reading.read ⟨⟨outer, some call, args⟩ :: frames, .start⟩ (tokens ++ rest) = none := by
  cases reads : Reading.read ⟨⟨outer, some call, args⟩ :: frames, .start⟩ (tokens ++ rest) with
  | none => rfl
  | some expr =>
      rcases inside.read_argument free still (by rw [reads]; rfl) with ⟨rfl, -⟩ | ⟨few, -⟩ |
        ⟨operand, expr, comma, more, rfl, value, separates, inside, still, reads⟩
      · simp at full
      · omega
      · have full : 3 ≤ (args ++ [expr]).length := by
          rw [List.length_append]
          omega
        rw [inside.read_overfull (free_separator separates) still full] at reads
        contradiction
termination_by tokens.length

theorem Normal.absent {tokens : List Token} (normal : Normal tokens) {rule : Rule}
    (member : rule ∈ Rule.standard) : rule.matchFrom? none tokens = none :=
  Engine.firstMatch?_eq_none.mp normal rule member

theorem Normal.still {tokens : List Token} (normal : Normal tokens) : Still 4 none tokens :=
  fun _ member => normal.absent (List.mem_append_left bracketRules member)

/-- No rule for brackets matches at the start of a normal sequence. -/
theorem Normal.not_starts {opener : Token} {tokens : List Token}
    (normal : Normal (opener :: tokens)) {rule : Rule} (member : rule ∈ bracketRules) :
    ¬ Starts rule.pattern (opener :: tokens) := by
  have absent := normal.absent (List.mem_append_right operatorRules member)
  have here := (Rule.matchFrom?_cons_eq_none absent).1
  have any : ∀ rule ∈ bracketRules, rule.left = .any := by decide
  simpa [Rule.matchesHere, Rule.leftAllows, any rule member] using here

/-- A normal bracket is not read to its end. -/
theorem Normal.read_bracket {opener : Token} {tokens rest : List Token} {outer : Pending}
    {frames : List Frame} (normal : Normal (opener :: tokens)) (inside : Inside tokens rest)
    (opens : opener.kind = .bracketOpen) :
    ¬ (Reading.read ⟨⟨outer, none, []⟩ :: frames, .start⟩ (tokens ++ rest)).isSome := by
  intro reads
  have free : Free (some opener) := free_opener (by simp [Token.isOpener, opens])
  rcases inside.read_start free normal.still.cons.2 reads with ⟨closer, rfl, closes⟩ |
    ⟨operand, expr, more, rfl, value, reads, ⟨rfl, rfl⟩ | ⟨closer, rfl, closes⟩ |
      ⟨comma, more', rfl, separates, -⟩⟩
  · simp [Reading.read, Reading.next?, closes, Reading.close?, Frame.value?, Pending.start] at reads
  · simp [Reading.read, Reading.result?] at reads
  · apply normal.not_starts (show Rule.brackets ∈ bracketRules by decide)
    simp [Starts, Rule.matchesPattern, Rule.brackets, Token.tokenClass, opens, value, closes,
      TokenKind.tokenClass]
  · simp [Reading.read, Reading.next?, separates, Reading.separate?] at reads

/-- A normal call is not read to its end. -/
theorem Normal.read_call {opener : Token} {name : String} {tokens rest : List Token}
    {outer : Pending} {call : String × Span} {frames : List Frame}
    (normal : Normal (opener :: tokens)) (inside : Inside tokens rest)
    (opens : opener.kind = .functionStart name) :
    ¬ (Reading.read ⟨⟨outer, some call, []⟩ :: frames, .start⟩ (tokens ++ rest)).isSome := by
  intro reads
  have free : Free (some opener) := free_opener (by simp [Token.isOpener, opens])
  -- each call that could be read is one that a rule matches
  rcases inside.read_argument free normal.still.cons.2 reads with ⟨-, closer, rfl, closes⟩ |
    ⟨-, first, lhs, closer, rfl, isFirst, closes⟩ |
    ⟨first, lhs, comma, more, rfl, isFirst, separates, inside, still, reads⟩
  · apply normal.not_starts (show Rule.intrinsic ∈ bracketRules by decide)
    simp [Starts, Rule.matchesPattern, Rule.intrinsic, Token.tokenClass, opens, closes,
      TokenKind.tokenClass]
  · apply normal.not_starts (show Rule.unaryCall ∈ bracketRules by decide)
    simp [Starts, Rule.matchesPattern, Rule.unaryCall, Token.tokenClass, opens, isFirst, closes,
      TokenKind.tokenClass]
  rcases inside.read_argument (free_separator separates) still reads with ⟨none, -⟩ |
    ⟨-, second, rhs, closer, rfl, isSecond, closes⟩ |
    ⟨second, rhs, comma', more, rfl, isSecond, separates', inside, still, reads⟩
  · simp at none
  · apply normal.not_starts (show Rule.binaryCall ∈ bracketRules by decide)
    simp [Starts, Rule.matchesPattern, Rule.binaryCall, Token.tokenClass, opens, isFirst, separates,
      isSecond, closes, TokenKind.tokenClass]
  rcases inside.read_argument (free_separator separates') still reads with ⟨none, -⟩ |
    ⟨-, third, last, closer, rfl, isThird, closes⟩ |
    ⟨third, last, comma'', more, rfl, -, separates'', inside, still, reads⟩
  · simp at none
  · apply normal.not_starts (show Rule.tertiaryCall ∈ bracketRules by decide)
    simp [Starts, Rule.matchesPattern, Rule.tertiaryCall, Token.tokenClass, opens, isFirst,
      separates, isSecond, separates', isThird, closes, TokenKind.tokenClass]
  · rw [inside.read_overfull (free_separator separates'') still (by simp)] at reads
    contradiction

/-- A normal group that can be read is a value. -/
theorem Group.read_normal {r : Reading} {tokens rest : List Token} (group : Group r tokens rest)
    (normal : Normal tokens) (reads : (r.read (tokens ++ rest)).isSome) :
    ∃ token expr, tokens = [token] ∧ token.kind = .value expr := by
  cases group with
  | value isValue => exact ⟨_, _, rfl, isValue⟩
  | formula inside =>
      rcases inside.read_start rfl normal.still reads with ⟨closer, rfl, closes⟩ |
        ⟨operand, expr, more, rfl, value, reads, ⟨rfl, -⟩ | ⟨closer, rfl, closes⟩ |
          ⟨comma, more', rfl, separates, -⟩⟩
      · simp [Reading.read, Reading.next?, closes, Reading.close?, Reading.start] at reads
      · exact ⟨operand, expr, rfl, value⟩
      · simp [Reading.read, Reading.next?, closes, Reading.close?] at reads
      · simp [Reading.read, Reading.next?, separates, Reading.separate?] at reads
  | @bracket r opener tokens rest opens inside =>
      rw [List.cons_append, Reading.read_cons] at reads
      exfalso
      cases kind : opener.kind with
      | bracketOpen =>
          rw [r.next?_bracketOpen kind] at reads
          cases phase : r.top.phase <;> simp only [Reading.open?, phase, Option.bind_some] at reads
          case holding => contradiction
          all_goals exact normal.read_bracket inside kind reads
      | functionStart name =>
          rw [r.next?_functionStart kind] at reads
          cases phase : r.top.phase <;> simp only [Reading.open?, phase, Option.bind_some] at reads
          case holding => contradiction
          all_goals exact normal.read_call inside kind reads
      | value expr | operator op | separator | bracketClose => simp [Token.isOpener, kind] at opens

/-- A normal group that is no value cannot be read. -/
theorem Group.read_eq_none {r : Reading} {tokens rest : List Token} (group : Group r tokens rest)
    (normal : Normal tokens)
    (other : ∀ token, tokens = [token] → ∀ expr, token.kind ≠ .value expr) :
    r.read (tokens ++ rest) = none := by
  cases reads : r.read (tokens ++ rest) with
  | none => rfl
  | some expr =>
      obtain ⟨token, expr, single, isValue⟩ := group.read_normal normal (by rw [reads]; rfl)
      exact absurd isValue (other token single expr)

end ImageFormula
