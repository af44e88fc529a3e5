import ImageFormula.Proofs.Parsing

/-!
# The limit on the height of trees

The depth that a token carries is the height of its tree (`Measured`), and steps keep it so. Hence a
limit refuses exactly the formulas with trees above it; a formula of one token is never refused,
since no step is taken (`Engine.run_eq_ok_iff`).
-/

namespace ImageFormula

/-- The number of nodes on the longest way down. -/
def Expr.height : Expr → Nat
  | number _ | image _ | intrinsic _ _ => 1
  | binary lhs _ rhs => max lhs.height rhs.height + 1
  | unary _ arg _ => arg.height + 1
  | binaryCall _ first second _ => max first.height second.height + 1
  | tertiary _ first second third _ => max (max first.height second.height) third.height + 1

theorem Expr.height_pos (expr : Expr) : 1 ≤ expr.height := by
  cases expr <;> simp [height]

theorem Expr.height_negate (expr : Expr) : expr.negate.height = expr.height + 1 := by
  have := expr.height_pos
  simp only [negate, height]
  omega

/-- The height of the tree that a token carries. -/
def TokenKind.height : TokenKind → Nat
  | value expr => expr.height
  | _ => 0

/-- Every token carries the height of its tree as its depth. -/
def Measured (tokens : List Token) : Prop := ∀ token ∈ tokens, token.depth = token.kind.height

theorem Measured.append {left right : List Token} :
    Measured (left ++ right) ↔ Measured left ∧ Measured right := by
  simp [Measured, or_imp, forall_and]

theorem Measured.cons {token : Token} {tokens : List Token} :
    Measured (token :: tokens) ↔ token.depth = token.kind.height ∧ Measured tokens := by
  simp [Measured]

namespace Reducer

theorem operandDepth_measured {tokens : List Token} (measured : Measured tokens) :
    operandDepth tokens = ((tokens.map Token.kind).map TokenKind.height).foldl max 0 := by
  unfold operandDepth
  rw [List.map_map, List.map_congr_left measured]
  rfl

theorem foldl_arguments {tokens : List Token} {args : List Expr} (measured : Measured tokens)
    (arguments : arguments? tokens = some args) (least : Nat) :
    (tokens.map Token.depth).foldl max least = (args.map Expr.height).foldl max least := by
  induction tokens generalizing args least with
  | nil =>
      obtain rfl := Option.some.inj arguments
      rfl
  | cons token tokens ih =>
      obtain ⟨isDepth, measured⟩ := Measured.cons.mp measured
      simp only [arguments?] at arguments
      split at arguments
      · rename_i kind
        obtain ⟨args, isRest, rfl⟩ := Option.map_eq_some_iff.mp arguments
        simp only [List.map_cons, List.foldl_cons, isDepth, kind, TokenKind.height]
        exact ih measured isRest _
      · rename_i kind
        simp only [List.map_cons, List.foldl_cons, isDepth, kind, TokenKind.height, Nat.max_zero]
        exact ih measured arguments _
      · rename_i kind
        simp only [List.map_cons, List.foldl_cons, isDepth, kind, TokenKind.height, Nat.max_zero]
        exact ih measured arguments _
      · contradiction

theorem height_of_call? {name : String} {span : Span} {args : List Expr} {expr : Expr}
    (called : Expr.call? name span args = some expr) :
    expr.height = (args.map Expr.height).foldl max 0 + 1 := by
  rcases args with _ | ⟨_, _ | ⟨_, _ | ⟨_, _ | ⟨_, _⟩⟩⟩⟩
  case cons.cons.cons.cons => contradiction
  all_goals
    obtain rfl := Option.some.inj called
    simp [Expr.height]

/-- What a reducer puts carries the height of its tree if all that it takes does. -/
theorem apply_measured {reducer : Reducer} {tokens : List Token} {result : Token}
    (measured : Measured tokens) (applied : reducer.apply tokens = .ok result) :
    result.depth = result.kind.height := by
  have deepest := operandDepth_measured measured
  have reduced := reduce?_of_apply applied
  cases reducer with
  | operator =>
      simp only [reduce?, operator?] at reduced
      split at reduced
      · rename_i kinds
        obtain rfl := Option.some.inj reduced
        rw [kinds] at deepest
        simp [valueOf, deepest, TokenKind.height, Expr.height]
      · contradiction
  | sign =>
      simp only [reduce?, sign?] at reduced
      split at reduced
      · rename_i kinds
        obtain rfl := Option.some.inj reduced
        rw [kinds] at deepest
        simp [valueOf, deepest, TokenKind.height, Expr.height_negate]
      · rename_i kinds
        obtain rfl := Option.some.inj reduced
        rw [kinds] at deepest
        simp [valueOf, deepest, TokenKind.height]
      · contradiction
  | brackets =>
      simp only [reduce?, brackets?] at reduced
      split at reduced
      · rename_i kinds
        obtain rfl := Option.some.inj reduced
        rw [kinds] at deepest
        simp [valueOf, deepest, TokenKind.height]
      · contradiction
  | call =>
      simp only [reduce?, call?] at reduced
      split at reduced
      · contradiction
      · rename_i opener rest
        split at reduced
        · rename_i args opens arguments
          obtain ⟨expr, called, rfl⟩ := Option.map_eq_some_iff.mp reduced
          obtain ⟨isDepth, measured⟩ := Measured.cons.mp measured
          rw [opens] at isDepth
          have least := foldl_arguments measured arguments 0
          simp only [valueOf, TokenKind.height, height_of_call? called]
          simp [operandDepth, isDepth, TokenKind.height, least]
        · contradiction

end Reducer

theorem Step.measured {tokens next : List Token} {value : Token} (step : Step tokens value next)
    (measured : Measured tokens) : Measured next := by
  obtain ⟨before, taken, after, rfl, rfl, -, reducer, applied⟩ := step.split
  simp only [Measured.append, Measured.cons] at measured ⊢
  exact ⟨measured.1, Reducer.apply_measured measured.2.1 applied, measured.2.2⟩

namespace Engine

variable {limit limit' : Nat} {tokens result : List Token} {token : Token}

theorem resolve_measured (resolved : (standard limit).resolve tokens = .ok result)
    (measured : Measured tokens) : Measured result :=
  (resolve_invariant Measured (fun _ _ _ isStep => isStep.measured) resolved measured).2

theorem resolveGroup_of_resolve {group : List Token}
    (resolved : (standard limit).resolve group = .ok [token]) :
    (standard limit).resolveGroup group = .ok token := by
  rw [resolveGroup, resolved]

/-- One step of `resolveGroups`. The group and what follows it do not depend on the limit. -/
theorem resolveGroups_cons
    (resolved : (standard limit).resolveGroups (token :: tokens) = .ok result) :
    ∃ rest, (standard limit).resolveGroups tokens = .ok rest ∧
      ((token.isOpener = false ∧ result = token :: rest) ∨
        token.isOpener = true ∧ ∃ group after value, token :: rest = group ++ after ∧
          (standard limit).resolve group = .ok [value] ∧ result = value :: after ∧
          ∀ limit', (standard limit').resolveGroups tokens = .ok rest →
            (standard limit').resolve group = .ok [value] →
            (standard limit').resolveGroups (token :: tokens) = .ok result) := by
  rw [resolveGroups] at resolved
  split at resolved
  · contradiction
  rename_i rest restResolved
  refine ⟨rest, restResolved, ?_⟩
  split at resolved
  · rename_i opens
    refine .inr ⟨opens, token :: (rest.span fun next => !next.isCloser).1 ++
      (rest.span fun next => !next.isCloser).2.take 1,
      (rest.span fun next => !next.isCloser).2.drop 1, ?_⟩
    simp only at resolved
    split at resolved
    · contradiction
    rename_i value group
    obtain rfl := Except.ok.inj resolved
    refine ⟨value, ?_, resolveGroup_eq_ok group, rfl, ?_⟩
    · rw [List.append_assoc, List.take_append_drop, List.span_eq_takeWhile_dropWhile]
      simp
    · intro limit' restResolved group
      simp only [resolveGroups, restResolved, opens, if_true, resolveGroup_of_resolve group]
  · rename_i notOpener
    exact .inl ⟨by simpa using notOpener, (Except.ok.inj resolved).symm⟩

theorem resolveGroups_measured (resolved : (standard limit).resolveGroups tokens = .ok result)
    (measured : Measured tokens) : Measured result := by
  induction tokens generalizing result with
  | nil => rwa [← Except.ok.inj resolved]
  | cons token tokens ih =>
      obtain ⟨isDepth, measured⟩ := Measured.cons.mp measured
      obtain ⟨rest, restResolved, ⟨-, rfl⟩ | ⟨-, group, after, value, cut, group', rfl, -⟩⟩ :=
        resolveGroups_cons resolved
      · exact Measured.cons.mpr ⟨isDepth, ih restResolved measured⟩
      · have all := Measured.cons.mpr ⟨isDepth, ih restResolved measured⟩
        rw [cut, Measured.append] at all
        have single := resolve_measured group' all.1
        exact Measured.cons.mpr ⟨(Measured.cons.mp single).1, all.2⟩

/-- Whether the groups keep within a limit depends only on what they end with. -/
theorem resolveGroups_limit (resolved : (standard limit).resolveGroups tokens = .ok result)
    (shallow : Reducer.operandDepth result ≤ limit') :
    (standard limit').resolveGroups tokens = .ok result := by
  induction tokens generalizing result with
  | nil => exact resolved
  | cons token tokens ih =>
      rw [Reducer.operandDepth_le] at shallow
      obtain ⟨rest, restResolved, ⟨notOpener, rfl⟩ |
        ⟨opens, group, after, value, cut, group', rfl, rerun⟩⟩ := resolveGroups_cons resolved
      · refine resolveGroups_other notOpener (ih restResolved ?_)
        exact Reducer.operandDepth_le.mpr fun t member => shallow t (.tail _ member)
      · have value_shallow : Reducer.operandDepth [value] ≤ limit' :=
          Reducer.operandDepth_le.mpr (by simpa using shallow value (.head _))
        -- the group is no deeper than its value, so the groups within it keep to the limit too
        have group_shallow := Reducer.operandDepth_le.mp
          (Nat.le_trans (resolve_operandDepth group') value_shallow)
        refine rerun limit' (ih restResolved ?_) (resolve_limit group' value_shallow)
        rw [Reducer.operandDepth_le]
        intro t member
        have member : t ∈ group ++ after := cut ▸ List.mem_cons_of_mem token member
        rcases List.mem_append.mp member with member | member
        · exact group_shallow t member
        · exact shallow t (.tail _ member)

section Run

variable {expr : Expr} {rest : List Token} {root : Token}

theorem run_of_parts (balanced : checkBrackets [] tokens = .ok ())
    (resolved : (standard limit).resolveGroups tokens = .ok rest)
    (single : rest = [root] ∨ 2 ≤ rest.length ∧ (standard limit).resolve rest = .ok [root])
    (isValue : root.kind = .value expr) : (standard limit).run tokens = .ok expr := by
  have isRoot : rootOf root = .ok expr := by rw [rootOf, isValue]
  simp only [run, bind, Except.bind, balanced, resolved]
  rcases single with rfl | ⟨size, group⟩
  · exact isRoot
  · rcases rest with _ | ⟨first, _ | ⟨second, rest⟩⟩
    · simp at size
    · simp at size
    · simp only [resolveGroup_of_resolve group, isRoot]

/-- If the groups of several tokens come down to one token, then it is a value within the limit. -/
theorem resolveGroups_single (several : tokens.length ≠ 1)
    (resolved : (standard limit).resolveGroups tokens = .ok [root]) : root.depth ≤ limit := by
  cases tokens with
  | nil => simp [resolveGroups] at resolved
  | cons token tokens =>
      have more : tokens ≠ [] := by simpa using several
      obtain ⟨rest, restResolved, ⟨-, same⟩ | ⟨-, group, after, value, cut, group', same, -⟩⟩ :=
        resolveGroups_cons resolved
      · obtain ⟨-, none⟩ := List.cons.inj same
        exact absurd none.symm (resolveGroups_ne_nil more restResolved)
      · obtain ⟨rfl, rfl⟩ := List.cons.inj same
        refine (resolve_single group' ?_).2
        have nonempty := List.length_pos_iff.mpr (resolveGroups_ne_nil more restResolved)
        rw [← List.append_nil group, ← cut, List.length_cons]
        omega

/-- A formula of several tokens has a tree within the limit. -/
theorem height_le_of_run (measured : Measured tokens) (several : tokens.length ≠ 1)
    (ran : (standard limit).run tokens = .ok expr) : expr.height ≤ limit := by
  obtain ⟨-, rest, resolved, root, single, isValue⟩ := run_eq_ok ran
  have measured := resolveGroups_measured resolved measured
  have height_eq {tokens : List Token} (measured : Measured (root :: tokens)) :
      root.depth = expr.height := by
    rw [(Measured.cons.mp measured).1, isValue]
    rfl
  rcases single with rfl | ⟨size, group⟩
  · rw [← height_eq measured]
    exact resolveGroups_single several resolved
  · rw [← height_eq (resolve_measured group measured)]
    exact (resolve_single group size).2

/-- The engine finds every tree of the grammar within the limit. -/
theorem run_of_derives (measured : Measured tokens) (derives : Derives .sum tokens expr)
    (low : expr.height ≤ limit) : (standard limit).run tokens = .ok expr := by
  have reads := derives_sum_iff_read.mp derives
  have nonempty : tokens ≠ [] := by
    rintro rfl
    contradiction
  -- without a limit the engine finds the tree, so all depends on the depth of its root
  cases ran : (standard (weight tokens)).run tokens with
  | error fault =>
      rw [(run_eq_error nonempty (Nat.le_refl _) ran).2] at reads
      contradiction
  | ok found =>
      have found_reads := derives_sum_iff_read.mp (derives_of_run ran)
      obtain rfl := Option.some.inj (found_reads.symm.trans reads)
      obtain ⟨balanced, rest, resolved, root, single, isValue⟩ := run_eq_ok ran
      have measured := resolveGroups_measured resolved measured
      have shallow {tokens : List Token} (measured : Measured tokens) (same : tokens = [root]) :
          Reducer.operandDepth tokens ≤ limit := by
        subst same
        simpa [Reducer.operandDepth_le, (Measured.cons.mp measured).1, isValue, TokenKind.height]
          using low
      rcases single with same | ⟨size, group⟩
      · exact run_of_parts balanced (resolveGroups_limit resolved (shallow measured same))
          (.inl same) isValue
      · have shallow := shallow (resolve_measured group measured) rfl
        exact run_of_parts balanced
          (resolveGroups_limit resolved (Nat.le_trans (resolve_operandDepth group) shallow))
          (.inr ⟨size, resolve_limit group shallow⟩) isValue

/-- A formula of one token is a value. -/
theorem kind_of_derives_singleton (derives : Derives .sum [token] expr) :
    token.kind = .value expr := by
  have reads := derives_sum_iff_read.mp derives
  cases kind : token.kind with
  | value found =>
      have reads' := derives_sum_iff_read.mp (.ofValue kind)
      rw [Option.some.inj (reads'.symm.trans reads)]
  | operator op =>
      cases op <;> simp [Reading.read, Reading.next?, kind, Reading.start, Pending.start,
        Pending.operator?, Operator.isSign, Reading.result?] at reads
  | bracketOpen | functionStart name =>
      simp [Reading.read, Reading.next?, kind, Reading.start, Pending.start, Reading.open?,
        Reading.result?] at reads
  | bracketClose => simp [Reading.read, Reading.next?, kind, Reading.start, Reading.close?] at reads
  | separator => simp [Reading.read, Reading.next?, kind, Reading.start, Reading.separate?] at reads

/-- The limit refuses exactly the trees above it, and no formula of one token. -/
theorem run_eq_ok_iff (measured : Measured tokens) :
    (standard limit).run tokens = .ok expr ↔
      Derives .sum tokens expr ∧ (expr.height ≤ limit ∨ tokens.length = 1) := by
  constructor
  · intro ran
    refine ⟨derives_of_run ran, ?_⟩
    by_cases several : tokens.length = 1
    · exact .inr several
    · exact .inl (height_le_of_run measured several ran)
  · rintro ⟨derives, low | single⟩
    · exact run_of_derives measured derives low
    · obtain ⟨token, rfl⟩ := List.length_eq_one_iff.mp single
      have kind := kind_of_derives_singleton derives
      have notOpener : token.isOpener = false := by simp [Token.isOpener, kind]
      have notCloser : token.isCloser = false := by simp [Token.isCloser, kind]
      exact run_of_parts (checkBrackets_other notOpener notCloser)
        (resolveGroups_other notOpener rfl) (.inl rfl) kind

end Run

end Engine

end ImageFormula
