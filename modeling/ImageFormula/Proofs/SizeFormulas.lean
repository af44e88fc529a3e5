import ImageFormula.Proofs.Filling
import ImageFormula.SizeFormula

/-!
# Size formulas at all sizes

A size formula is read, reduced and folded anew at every evaluation, with the sizes as numbers. No
part of it looks at their values:

* **reading**: a text gives the same tokens at all sizes, up to placeholders for the sizes
  (`Scope.tokens_sizes`);
* **reduction**: the tokens give one tree with sizes as leaves (`SizeFormula.rootAt_eq`), since
  placeholders may be filled in after the run;
* **folding**: whether a tree folds, and its fault if not, depends on its calls only
  (`SizeTree.verdict_fold`).

So a text has a value at all sizes or the same fault at all of them.
-/

namespace ImageFormula

/-! ## Trees over sizes -/

/-- The names of the sizes. -/
inductive SizeName where
  | width
  | height
  | depth
  deriving DecidableEq, Repr

/-- A size name in lower case. -/
def SizeName.ofText? : String → Option SizeName
  | "width" => some width
  | "height" => some height
  | "depth" => some depth
  | _ => none

def Sizes.value (sizes : Sizes) : SizeName → Binary32
  | .width => sizes.width
  | .height => sizes.height
  | .depth => sizes.depth

theorem Sizes.get?_eq (sizes : Sizes) (text : String) :
    sizes.get? text = (SizeName.ofText? text).map sizes.value := by
  unfold get?
  split
  · rfl
  · rfl
  · rfl
  · rename_i notWidth notHeight notDepth
    rw [SizeName.ofText?.eq_4 text notWidth notHeight notDepth, Option.map_none]

/-- A tree with sizes as leaves. -/
inductive SizeTree where
  | number (value : Binary32)
  | size (name : SizeName)
  | binary (lhs : SizeTree) (op : Operator) (rhs : SizeTree)
  | intrinsic (name : String) (span : Span)
  | unary (name : String) (arg : SizeTree) (span : Span)
  | binaryCall (name : String) (first second : SizeTree) (span : Span)
  | tertiary (name : String) (first second third : SizeTree) (span : Span)
  deriving DecidableEq, Repr

/-- The tree at given sizes: every size leaf is a number. -/
def SizeTree.instantiate (sizes : Sizes) : SizeTree → Expr
  | number value => .number value
  | size name => .number (sizes.value name)
  | binary lhs op rhs => .binary (lhs.instantiate sizes) op (rhs.instantiate sizes)
  | intrinsic name span => .intrinsic name span
  | unary name arg span => .unary name (arg.instantiate sizes) span
  | binaryCall name first second span =>
    .binaryCall name (first.instantiate sizes) (second.instantiate sizes) span
  | tertiary name first second third span =>
    .tertiary name (first.instantiate sizes) (second.instantiate sizes) (third.instantiate sizes)
      span

/-! ## Placeholders

While a formula is reduced, the image of a slot stands for a size. -/

/-- The slot that stands for a size. -/
def SizeName.slot : SizeName → Nat
  | width => 0
  | height => 1
  | depth => 2

/-- The size that a slot stands for. -/
def SizeName.ofSlot : Nat → SizeName
  | 0 => width
  | 1 => height
  | _ => depth

theorem SizeName.ofSlot_slot (name : SizeName) : ofSlot name.slot = name := by
  cases name <;> rfl

/-- The numbers that the slots stand for. -/
def Sizes.values (sizes : Sizes) (slot : Nat) : Binary32 := sizes.value (.ofSlot slot)

/-- The tree in which the image of a slot is the size that it stands for. -/
def SizeTree.ofExpr : Expr → SizeTree
  | .number value => number value
  | .image slot => size (.ofSlot slot)
  | .binary lhs op rhs => binary (ofExpr lhs) op (ofExpr rhs)
  | .intrinsic name span => intrinsic name span
  | .unary name arg span => unary name (ofExpr arg) span
  | .binaryCall name first second span => binaryCall name (ofExpr first) (ofExpr second) span
  | .tertiary name first second third span =>
    tertiary name (ofExpr first) (ofExpr second) (ofExpr third) span

theorem SizeTree.instantiate_ofExpr (sizes : Sizes) (expr : Expr) :
    (ofExpr expr).instantiate sizes = expr.fill sizes.values := by
  induction expr with
  | number | image | intrinsic => rfl
  | binary lhs op rhs ihl ihr => simp only [ofExpr, instantiate, Expr.fill, ihl, ihr]
  | unary name arg span ih => simp only [ofExpr, instantiate, Expr.fill, ih]
  | binaryCall name first second span ihf ihs =>
      simp only [ofExpr, instantiate, Expr.fill, ihf, ihs]
  | tertiary name first second third span ihf ihs iht =>
      simp only [ofExpr, instantiate, Expr.fill, ihf, ihs, iht]

/-! ## Reading -/

theorem Scope.resolve_sizes (identifier : String) (span : Span) :
    ∃ symbol : Except Fault Expr, ∀ sizes : Sizes,
      (Scope.sizes sizes).resolve identifier span =
        (symbol.map (Expr.fill sizes.values), .sizes sizes) := by
  simp only [resolve, Sizes.get?_eq]
  cases SizeName.ofText? (Text.lower identifier) with
  | some name =>
      refine ⟨.ok (.image name.slot), fun sizes => ?_⟩
      simp [Except.map, Expr.fill, Sizes.values, SizeName.ofSlot_slot]
  | none =>
      cases constant? identifier with
      | some value => exact ⟨.ok (.number value), fun _ => rfl⟩
      | none =>
          simp only [Option.map_none]
          split
          · exact ⟨.error _, fun _ => rfl⟩
          · exact ⟨.error _, fun _ => rfl⟩

theorem Scope.readWord_sizes (word : String) (span : Span) :
    ∃ symbol : Except Fault Expr, ∀ sizes : Sizes,
      (Scope.sizes sizes).readWord word span =
        (symbol.map (Expr.fill sizes.values), .sizes sizes) := by
  unfold readWord
  split
  · split
    · exact resolve_sizes word span
    · cases Decimal.parse? word.toList with
      | some decimal => exact ⟨.ok (.number decimal.narrowed), fun _ => rfl⟩
      | none => exact ⟨.error (.badNumber word span), fun _ => rfl⟩
  · exact ⟨.error (.badNumber word span), fun _ => rfl⟩

theorem Lexeme.token_sizes (lexeme : Lexeme) :
    ∃ symbol : Except Fault Token, ∀ sizes : Sizes,
      lexeme.token (.sizes sizes) = (symbol.map (Token.fill sizes.values), .sizes sizes) := by
  obtain ⟨kind, span⟩ := lexeme
  cases kind with
  | word text =>
      obtain ⟨symbol, reads⟩ := Scope.readWord_sizes text span
      refine ⟨symbol.map fun expr => Token.ofKind (.value expr) span, fun sizes => ?_⟩
      simp only [token, reads]
      cases symbol <;> rfl
  | operator op => exact ⟨.ok (Token.ofKind (.operator op) span), fun _ => rfl⟩
  | bracketOpen => exact ⟨.ok (Token.ofKind .bracketOpen span), fun _ => rfl⟩
  | bracketClose => exact ⟨.ok (Token.ofKind .bracketClose span), fun _ => rfl⟩
  | separator => exact ⟨.ok (Token.ofKind .separator span), fun _ => rfl⟩
  | functionStart name => exact ⟨.ok (Token.ofKind (.functionStart name) span), fun _ => rfl⟩

theorem Lexeme.tokens_sizes (lexemes : List Lexeme) :
    ∃ symbols : Except Fault (List Token), ∀ sizes : Sizes,
      Lexeme.tokens lexemes (.sizes sizes) =
        (symbols.map (List.map (Token.fill sizes.values)), .sizes sizes) := by
  induction lexemes with
  | nil => exact ⟨.ok [], fun _ => rfl⟩
  | cons lexeme more ih =>
      obtain ⟨symbol, reads⟩ := lexeme.token_sizes
      obtain ⟨symbols, readsMore⟩ := ih
      simp only [tokens, reads]
      cases symbol with
      | error fault => exact ⟨.error fault, fun _ => rfl⟩
      | ok first =>
          refine ⟨symbols.map (first :: ·), fun sizes => ?_⟩
          simp only [Except.map, readsMore]
          cases symbols <;> rfl

/-- A text is read as the same tokens at all sizes, up to the numbers for the sizes. -/
theorem Scope.tokens_sizes (text : String) :
    ∃ symbols : Except Fault (List Token), ∀ sizes : Sizes,
      (Scope.sizes sizes).tokens text =
        (symbols.map (List.map (Token.fill sizes.values)), .sizes sizes) := by
  simp only [tokens]
  cases Lexeme.cut text with
  | nil => exact ⟨.error .emptyFormula, fun _ => rfl⟩
  | cons lexeme more => exact Lexeme.tokens_sizes (lexeme :: more)

/-! ## Verdicts -/

/-- That a result was reached, or the fault. -/
def verdict {α : Type} (result : Except Fault α) : Except Fault Unit := result.map fun _ => ()

section Verdicts

variable {α : Type} {result : Except Fault α} {fault : Fault}

@[simp] theorem verdict_ok (value : α) : verdict (.ok value) = .ok () := rfl

@[simp] theorem verdict_error : verdict (.error fault : Except Fault α) = .error fault := rfl

theorem verdict_eq_ok_iff : verdict result = .ok () ↔ ∃ value, result = .ok value := by
  cases result <;> simp

theorem verdict_eq_error_iff : verdict result = .error fault ↔ result = .error fault := by
  cases result <;> simp

end Verdicts

theorem Scalar.isSome_value? (scalar : Scalar) (values : List Binary32) :
    (scalar.value? values).isSome = (values.length == scalar.arity) := by
  rcases values with _ | ⟨_, _ | ⟨_, _ | ⟨_, _ | ⟨_, _⟩⟩⟩⟩ <;> cases scalar <;>
    simp [value?, arity]

namespace Expr

variable {args args' : List (Except Fault Binary32)}

/-- Arguments of the same verdicts are collected alike. -/
theorem collect_of_verdicts (same : args.map verdict = args'.map verdict) :
    (∃ fault, collect args = .error fault ∧ collect args' = .error fault) ∨
      ∃ values values', collect args = .ok values ∧ collect args' = .ok values' ∧
        values.length = values'.length := by
  induction args generalizing args' with
  | nil =>
      cases args' with
      | nil => exact .inr ⟨[], [], rfl, rfl, rfl⟩
      | cons arg' more' => cases same
  | cons arg more ih =>
      cases args' with
      | nil => cases same
      | cons arg' more' =>
          obtain ⟨sameFirst, sameMore⟩ := List.cons.inj same
          cases arg with
          | error fault =>
              rw [verdict_eq_error_iff.mp sameFirst.symm]
              exact .inl ⟨fault, rfl, rfl⟩
          | ok first =>
              obtain ⟨first', rfl⟩ := verdict_eq_ok_iff.mp sameFirst.symm
              rcases ih sameMore with
                ⟨fault, failed, failed'⟩ | ⟨rest, rest', found, found', length⟩
              · exact .inl ⟨fault, by rw [collect, failed], by rw [collect, failed']⟩
              · refine .inr ⟨first :: rest, first' :: rest', ?_, ?_, ?_⟩
                · rw [collect, found]
                · rw [collect, found']
                · rw [List.length_cons, List.length_cons, length]

/-- The verdict of a call depends on its arguments by their verdicts only. -/
theorem verdict_callValue (same : args.map verdict = args'.map verdict) (name : String)
    (span : Span) : verdict (callValue name args span) = verdict (callValue name args' span) := by
  have length : args.length = args'.length := by simpa using congrArg List.length same
  unfold callValue
  rw [length]
  cases Function.find? name args'.length with
  | none => rfl
  | some function =>
      obtain ⟨_, _, _, scalar⟩ := function
      cases scalar with
      | none => rfl
      | some scalar =>
          rcases collect_of_verdicts same with
            ⟨fault, failed, failed'⟩ | ⟨values, values', found, found', sameLength⟩
          · simp only [failed, failed']
          · have given : (scalar.value? values).isSome = (scalar.value? values').isSome := by
              rw [Scalar.isSome_value?, Scalar.isSome_value?, sameLength]
            simp only [found, found']
            cases first : scalar.value? values with
            | none =>
                have second : scalar.value? values' = none := by simpa [first] using given
                rw [second]
            | some value =>
                rw [first, Option.isSome_some] at given
                obtain ⟨value', second⟩ := Option.isSome_iff_exists.mp given.symm
                rw [second, verdict_ok, verdict_ok]

end Expr

/-- Whether a tree folds does not depend on the sizes. -/
theorem SizeTree.verdict_fold (tree : SizeTree) (sizes sizes' : Sizes) :
    verdict (tree.instantiate sizes).fold = verdict (tree.instantiate sizes').fold := by
  induction tree with
  | number | size => rfl
  | binary lhs op rhs ihl ihr =>
      simp only [instantiate, Expr.fold]
      cases left : (lhs.instantiate sizes).fold with
      | error fault =>
          rw [left] at ihl
          rw [verdict_eq_error_iff.mp ihl.symm]
      | ok value =>
          rw [left] at ihl
          obtain ⟨value', left'⟩ := verdict_eq_ok_iff.mp ihl.symm
          rw [left']
          cases right : (rhs.instantiate sizes).fold with
          | error fault =>
              rw [right] at ihr
              rw [verdict_eq_error_iff.mp ihr.symm]
          | ok value =>
              rw [right] at ihr
              obtain ⟨value', right'⟩ := verdict_eq_ok_iff.mp ihr.symm
              rw [right', verdict_ok, verdict_ok]
  | intrinsic name span => rfl
  | unary name arg span ih =>
      exact Expr.verdict_callValue (by simp [ih]) name span
  | binaryCall name first second span ihf ihs =>
      exact Expr.verdict_callValue (by simp [ihf, ihs]) name span
  | tertiary name first second third span ihf ihs iht =>
      exact Expr.verdict_callValue (by simp [ihf, ihs, iht]) name span

/-! ## Evaluation -/

namespace SizeFormula

/-- The tree of a text at given sizes. -/
def rootAt (text : String) (sizes : Sizes) : Except Fault Expr := do
  (Engine.standard Limits.defaultDepth).run (← ((Scope.sizes sizes).tokens text).1)

theorem valueOf_eq (text : String) (sizes : Sizes) :
    valueOf text sizes = (rootAt text sizes).bind Expr.fold := by
  rw [valueOf, rootAt]
  rcases (Scope.sizes sizes).tokens text with ⟨fault | tokens, after⟩
  · rfl
  · dsimp only [bind, Except.bind]
    cases (Engine.standard Limits.defaultDepth).run tokens <;> rfl

/-- A text has one tree over sizes, or the same fault at all sizes. -/
theorem rootAt_eq (text : String) :
    ∃ root : Except Fault SizeTree, ∀ sizes,
      rootAt text sizes = root.map (SizeTree.instantiate sizes) := by
  obtain ⟨symbols, reads⟩ := Scope.tokens_sizes text
  cases symbols with
  | error fault =>
      refine ⟨.error fault, fun sizes => ?_⟩
      rw [rootAt, reads]
      rfl
  | ok symbols =>
      refine ⟨((Engine.standard Limits.defaultDepth).run symbols).map .ofExpr, fun sizes => ?_⟩
      rw [rootAt, reads]
      change (Engine.standard Limits.defaultDepth).run (symbols.map (Token.fill sizes.values)) = _
      rw [Engine.run_fill]
      cases (Engine.standard Limits.defaultDepth).run symbols with
      | error fault => rfl
      | ok root => exact congrArg Except.ok (SizeTree.instantiate_ofExpr sizes root).symm

theorem verdict_valueOf (text : String) (sizes sizes' : Sizes) :
    verdict (valueOf text sizes) = verdict (valueOf text sizes') := by
  obtain ⟨root, same⟩ := rootAt_eq text
  rw [valueOf_eq, valueOf_eq, same, same]
  cases root with
  | error fault => rfl
  | ok tree => exact tree.verdict_fold sizes sizes'

theorem parse_eq_ok_iff {text : String} {formula : SizeFormula} :
    parse text = .ok formula ↔ formula = ⟨text⟩ ∧ verdict (valueOf text .zero) = .ok () := by
  rw [parse]
  cases valueOf text .zero with
  | error fault => simp [Except.map]
  | ok value => simp [Except.map, eq_comm]

/-- A text has a value at all sizes or the same fault at all sizes, so a size formula never fails;
its value is the folding of one tree with the sizes for its leaves. -/
theorem valueOf_uniform (text : String) :
    (∀ sizes sizes', (∃ value, valueOf text sizes = .ok value) ↔
      ∃ value, valueOf text sizes' = .ok value) ∧
    (∀ sizes sizes' fault, valueOf text sizes = .error fault →
      valueOf text sizes' = .error fault) ∧
    ((∃ formula, parse text = .ok formula) ↔
      ∀ sizes, ∃ value, evaluate ⟨text⟩ sizes = .ok value) ∧
    ∀ formula, parse text = .ok formula → ∃ tree : SizeTree, ∀ sizes,
      rootAt text sizes = .ok (tree.instantiate sizes) ∧
        formula.evaluate sizes = (tree.instantiate sizes).fold := by
  refine ⟨?_, ?_, ?_, ?_⟩
  · intro sizes sizes'
    rw [← verdict_eq_ok_iff, ← verdict_eq_ok_iff, verdict_valueOf text sizes sizes']
  · intro sizes sizes' fault failed
    rw [← verdict_eq_error_iff] at failed ⊢
    rw [verdict_valueOf text sizes' sizes, failed]
  · constructor
    · rintro ⟨formula, parsed⟩ sizes
      have accepted := (parse_eq_ok_iff.mp parsed).2
      rw [evaluate, ← verdict_eq_ok_iff, verdict_valueOf text sizes .zero, accepted]
    · intro valued
      exact ⟨⟨text⟩, parse_eq_ok_iff.mpr ⟨rfl, verdict_eq_ok_iff.mpr (valued .zero)⟩⟩
  · intro formula parsed
    obtain ⟨rfl, accepted⟩ := parse_eq_ok_iff.mp parsed
    obtain ⟨root, same⟩ := rootAt_eq text
    cases root with
    | error fault =>
        rw [valueOf_eq, same] at accepted
        cases accepted
    | ok tree =>
        refine ⟨tree, fun sizes => ⟨same sizes, ?_⟩⟩
        rw [evaluate, valueOf_eq, same]
        rfl

/-- In `2*Width/(height-1)` one size is a factor and another is in a divisor that may be zero. -/
theorem valueOf_uniform_ratio :
    parse "2*Width/(height-1)" = .ok ⟨"2*Width/(height-1)"⟩ ∧
      ∃ tree : SizeTree, ∀ sizes,
        rootAt "2*Width/(height-1)" sizes = .ok (tree.instantiate sizes) ∧
          evaluate ⟨"2*Width/(height-1)"⟩ sizes = (tree.instantiate sizes).fold :=
  have parsed : parse "2*Width/(height-1)" = .ok ⟨"2*Width/(height-1)"⟩ := by decide +kernel
  ⟨parsed, (valueOf_uniform "2*Width/(height-1)").2.2.2 _ parsed⟩

end SizeFormula

end ImageFormula
