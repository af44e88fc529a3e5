import Mathlib.Data.List.Induction
import ImageFormula.Proofs.RoundTrip

/-!
# What a formula is made of

Rules join values and put them into calls, and signs put a factor before them. Apart from these
factors the leaves and calls of the tree are the tokens of the text, in the same order
(`Derives.items`). Words record their images while they are read, long before there is a tree; the
order being the same, the report is that of the tree (`Usage.recordAll_empty`). Both together are
`Limits.compile_items`.
-/

namespace ImageFormula

/-- A part of a formula that is no operator, bracket or separator. -/
inductive Item where
  | number (value : Binary32)
  | image (slot : Nat)
  /-- A call by its name in lower case, with the place of the name. -/
  | call (name : String) (span : Span)
  deriving DecidableEq, Repr

namespace Expr

/-- The leaves and calls of a tree, a call before its arguments and else from left to right. The
factor of a negation is left out. -/
def items : Expr → List Item
  | number value => [.number value]
  | image slot => [.image slot]
  | binary lhs op rhs =>
    if lhs.isMinusOne && op == .mul then rhs.items else lhs.items ++ rhs.items
  | intrinsic name span => [.call name span]
  | unary name arg span => .call name span :: arg.items
  | binaryCall name first second span => .call name span :: (first.items ++ second.items)
  | tertiary name first second third span =>
    .call name span :: (first.items ++ (second.items ++ third.items))

theorem items_negate (expr : Expr) : expr.negate.items = expr.items := by
  have factor : (number Binary32.minusOne).isMinusOne = true := by decide
  simp [negate, items, factor]

theorem items_binary {lhs : Expr} (noFactor : lhs.isMinusOne = false) (op : Operator) (rhs : Expr) :
    (binary lhs op rhs).items = lhs.items ++ rhs.items := by
  simp [items, noFactor]

end Expr

/-- The parts that a token carries: those of its value, or the name of a call. -/
def Token.items (token : Token) : List Item :=
  match token.kind with
  | .value expr => expr.items
  | .functionStart name => [.call (Text.lower name) token.span]
  | .operator _ | .bracketOpen | .bracketClose | .separator => []

namespace Token

variable {token : Token}

theorem items_value {expr : Expr} (isValue : token.kind = .value expr) :
    token.items = expr.items := by
  simp [items, isValue]

theorem items_call {name : String} (opens : token.kind = .functionStart name) :
    token.items = [.call (Text.lower name) token.span] := by
  simp [items, opens]

theorem items_nil {kind : TokenKind} (isKind : token.kind = kind)
    (noValue : ∀ expr, kind ≠ .value expr) (noCall : ∀ name, kind ≠ .functionStart name) :
    token.items = [] := by
  subst isKind
  unfold items
  split
  · exact absurd ‹_› (noValue _)
  · exact absurd ‹_› (noCall _)
  all_goals rfl

end Token

/-- The parts of a tree are those of its tokens, in the same order. -/
theorem Derives.items {bound : Nat} {level : Level} {tokens : List Token} {expr : Expr}
    (derives : Derives level tokens expr)
    (formula : ∀ token ∈ tokens, FormulaToken bound token.kind) :
    expr.items = tokens.flatMap Token.items := by
  induction derives with
  | value isValue => simp [Token.items_value isValue]
  | brackets opens closes _ ih =>
      have inside := ih fun t member => formula t (by simp [member])
      simp [Token.items_nil opens, Token.items_nil closes, inside]
  | intrinsic opens closes =>
      simp [Expr.items, Token.items_call opens, Token.items_nil closes]
  | unary opens closes _ ih =>
      have inside := ih fun t member => formula t (by simp [member])
      simp [Expr.items, Token.items_call opens, Token.items_nil closes, inside]
  | binaryCall opens separates closes _ _ ih ih' =>
      have left := ih fun t member => formula t (by simp [member])
      have right := ih' fun t member => formula t (by simp [member])
      simp [Expr.items, Token.items_call opens, Token.items_nil separates, Token.items_nil closes,
        left, right]
  | tertiary opens separates separates' closes _ _ _ ih ih' ih'' =>
      have left := ih fun t member => formula t (by simp [member])
      have middle := ih' fun t member => formula t (by simp [member])
      have right := ih'' fun t member => formula t (by simp [member])
      simp [Expr.items, Token.items_call opens, Token.items_nil separates,
        Token.items_nil separates', Token.items_nil closes, left, middle, right]
  | run _ ih | unsigned _ ih | chain _ ih | product _ ih | sum _ ih => exact ih formula
  | plus signs _ ih =>
      have operand := ih fun t member => formula t (by simp [member])
      simp [Token.items_nil signs, operand]
  | minus signs _ ih =>
      have operand := ih fun t member => formula t (by simp [member])
      simp [Expr.items_negate, Token.items_nil signs, operand]
  | power operates left _ ih ih' | times operates _ left _ ih ih' | add operates _ left _ ih ih'
  | chainPower operates _ _ left _ ih ih' =>
      have formulaLeft := fun t member => formula t (List.mem_append_left _ member)
      -- a left side that is a number has no sign, so the operation is no negation
      have noFactor := (left.formulaTree formulaLeft).not_isMinusOne
      have right := ih' fun t member => formula t (List.mem_append_right _ (.tail _ member))
      simp [Expr.items_binary noFactor, Token.items_nil operates, ih formulaLeft, right]

/-! ## The report of the images -/

namespace SlotSet

theorem mem_insert {slot new : Nat} {set : SlotSet} :
    slot ∈ SlotSet.insert new set ↔ slot = new ∨ slot ∈ set := by
  induction set with
  | nil => simp [insert]
  | cons first more ih =>
      rw [insert]
      split
      · simp
      · split
        · rename_i same
          simp [same]
        · simp only [List.mem_cons, ih]
          exact or_left_comm

theorem ofList_concat (slots : List Nat) (slot : Nat) :
    ofList (slots ++ [slot]) = SlotSet.insert slot (ofList slots) := by
  simp [ofList]

theorem mem_ofList {slot : Nat} {slots : List Nat} : slot ∈ ofList slots ↔ slot ∈ slots := by
  induction slots using List.reverseRecOn with
  | nil => simp [ofList]
  | append_singleton slots last ih =>
      rw [ofList_concat, mem_insert, ih, List.mem_append, List.mem_singleton]
      exact or_comm

end SlotSet

namespace Usage

/-- The usage of a list of references, said for the whole list. -/
def ofList (images : List Nat) : Usage :=
  ⟨images.head?, images.min?, images.max?, SlotSet.ofList images⟩

/-- One more reference is the usage of one more element. -/
theorem record_ofList (images : List Nat) (slot : Nat) :
    (ofList images).record slot = ofList (images ++ [slot]) := by
  cases images with
  | nil => simp [ofList, record, SlotSet.ofList]
  | cons first more =>
      rw [ofList, record, ← SlotSet.ofList_concat]
      simp only [ofList, List.cons_append, List.head?_cons, List.min?_cons', List.max?_cons',
        List.foldl_append, List.foldl_cons, List.foldl_nil, Option.getD_some, Nat.min_comm slot,
        Nat.max_comm slot]

/-- References that are recorded one by one are reported as a whole. -/
theorem recordAll_empty (images : List Nat) : empty.recordAll images = ofList images := by
  induction images using List.reverseRecOn with
  | nil => rfl
  | append_singleton images slot ih =>
      rw [recordAll_append, ih]
      exact record_ofList images slot

variable {images : List Nat} {slot : Nat}

theorem mem_slots_ofList : slot ∈ (ofList images).slots ↔ slot ∈ images := SlotSet.mem_ofList

theorem least_ofList : (ofList images).least = some slot ↔
    slot ∈ (ofList images).slots ∧ ∀ other ∈ (ofList images).slots, slot ≤ other := by
  simp only [mem_slots_ofList]
  exact List.min?_eq_some_iff

theorem greatest_ofList : (ofList images).greatest = some slot ↔
    slot ∈ (ofList images).slots ∧ ∀ other ∈ (ofList images).slots, other ≤ slot := by
  simp only [mem_slots_ofList]
  exact List.max?_eq_some_iff

/-- The greatest slot decides whether all of them exist. -/
theorem isValidFor_ofList {count : Nat} :
    (ofList images).isValidFor count = true ↔ ∀ slot ∈ images, slot < count := by
  cases isGreatest : (ofList images).greatest with
  | none =>
      obtain rfl : images = [] := List.max?_eq_none_iff.mp isGreatest
      simp [isValidFor, isGreatest]
  | some last =>
      obtain ⟨member, bound⟩ := List.max?_eq_some_iff.mp isGreatest
      simp only [isValidFor, isGreatest, decide_eq_true_eq]
      constructor
      · intro below slot isSlot
        exact Nat.lt_of_le_of_lt (bound slot isSlot) below
      · intro below
        exact below last member

end Usage

/-- Nothing of a formula is lost, doubled or moved in its tree, and the images that are reported are
those of the tree. -/
theorem Limits.compile_items {limits : Limits} {text : String} {equation : Equation}
    (compiled : limits.compile text = .ok equation) :
    (∃ tokens after, limits.scope.tokens text = (.ok tokens, after) ∧
      equation.root.items = tokens.flatMap Token.items) ∧
    equation.usage.slots = equation.root.slots ∧
    equation.usage.first = equation.root.images.head? ∧
    (∀ slot, equation.usage.least = some slot ↔
      slot ∈ equation.usage.slots ∧ ∀ other ∈ equation.usage.slots, slot ≤ other) ∧
    (∀ slot, equation.usage.greatest = some slot ↔
      slot ∈ equation.usage.slots ∧ ∀ other ∈ equation.usage.slots, other ≤ slot) ∧
    (equation.root.images = [] → equation.usage = .empty) ∧
    (∀ slot ∈ equation.usage.slots, slot < limits.slots) ∧
    ∀ count, equation.isValidFor count = true ↔ ∀ slot ∈ equation.root.images, slot < count := by
  obtain ⟨tokens, reads, derives, -, isUsage⟩ := compile_eq_ok_iff.mp compiled
  rw [Usage.recordAll_empty] at isUsage
  have formula := formulaToken_of_reads reads
  have read : limits.scope.tokens text = _ :=
    Scope.tokens_eq_ok_iff.mpr ⟨derives.ne_nil, reads, rfl⟩
  refine ⟨⟨tokens, _, read, derives.items formula⟩, ?_⟩
  have valid (count : Nat) : equation.isValidFor count =
      (Usage.ofList equation.root.images).isValidFor count := by
    rw [Equation.isValidFor, isUsage]
  rw [isUsage]
  refine ⟨rfl, rfl, fun slot => Usage.least_ofList, fun slot => Usage.greatest_ofList, ?_, ?_, ?_⟩
  · intro noImages
    rw [noImages]
    rfl
  · intro slot member
    rw [Usage.mem_slots_ofList, derives.images] at member
    exact Lexeme.images_lt reads slot member
  · intro count
    rw [valid]
    exact Usage.isValidFor_ofList

/-- In `-I2*MAX(I0,-I2)` both negations have a factor of their own. -/
theorem Limits.compile_items_negations :
    let limits : Limits := ⟨3, 4⟩
    let text := "-I2*MAX(I0,-I2)"
    let equation : Equation :=
      ⟨.binary (Expr.negate (.image 2)) .mul
        (.binaryCall "max" (.image 0) (Expr.negate (.image 2)) ⟨4, 8⟩),
        ⟨some 2, some 0, some 2, [0, 2]⟩⟩
    limits.compile text = .ok equation ∧
      equation.root.items = [.image 2, .call "max" ⟨4, 8⟩, .image 0, .image 2] ∧
      ∃ tokens after, limits.scope.tokens text = (.ok tokens, after) ∧
        equation.root.items = tokens.flatMap Token.items := by
  intro limits text equation
  have compiled : limits.compile text = .ok equation := by decide +kernel
  exact ⟨compiled, by decide, (compile_items compiled).1⟩

end ImageFormula
