import ImageFormula.Prelude
import ImageFormula.Proofs.Listing
import ImageFormula.Proofs.Readability

/-!
# The accessors that a shader text calls

Only the names of accessors have a capital `G`, in what is emitted for a formula as well as in the
declarations before it. So a text that names accessors is read off at its `G`s: `Names slots text`
says that `text` names the accessors of `slots`, in this order, and holds no other `G`.

* **one text names one list**: a name occurs in the text exactly if its slot is in the list
  (`Names.occurs_iff`), since the bracket behind a number tells where it ends;
* **expressions** name the images of their tree, left to right (`Expr.names_shader`);
* **declarations** name the slots below the count, one after the other (`Prelude.names_getters`).

The main statement is `Limits.compile_accessors`.
-/

namespace ImageFormula

/-- The name of an accessor, up to the bracket behind it. -/
def accessorName (slot : Nat) : List Char :=
  'G' :: ("etTexture".toList ++ Nat.toDigits 10 slot ++ ['('])

theorem toList_accessorName (slot : Nat) :
    ("GetTexture" ++ toString slot ++ "(").toList = accessorName slot := by
  simp [accessorName]

/-- The accessors that a text names, from left to right; it has no `G` but those of their names. -/
inductive Names : List Nat → List Char → Prop
  | nil : Names [] []
  | plain {slots : List Nat} {left right : List Char} (noName : 'G' ∉ left)
      (rest : Names slots right) : Names slots (left ++ right)
  | accessor (slot : Nat) {slots : List Nat} {right : List Char} (rest : Names slots right) :
      Names (slot :: slots) (accessorName slot ++ right)

/-- What starts with a character that a text does not have starts behind that text. -/
theorem infix_append_iff {first : Char} {more left right : List Char} (absent : first ∉ left) :
    first :: more <:+: left ++ right ↔ first :: more <:+: right := by
  induction left with
  | nil => rfl
  | cons c left ih =>
      rw [List.mem_cons, not_or] at absent
      rw [List.cons_append, List.infix_cons_iff, ih absent.2, or_iff_right]
      intro begins
      exact absent.1 (List.cons_prefix_cons.mp begins).1

/-- The number of a name goes up to its bracket. -/
theorem slot_of_begins {slot slot' : Nat} {rest : List Char}
    (begins : accessorName slot <+: accessorName slot' ++ rest) : slot = slot' := by
  have noBracket (slot : Nat) : '(' ∉ Nat.toDigits 10 slot := (isDigits_toDigits slot).notMem rfl
  obtain ⟨after, same⟩ := begins
  have same : Nat.toDigits 10 slot ++ '(' :: after = Nat.toDigits 10 slot' ++ '(' :: rest := by
    simpa [accessorName] using same
  have digits := eq_of_append_cons (noBracket slot) (noBracket slot') same
  rw [← Nat.ofDigitChars_ten_toDigits (n := slot), digits, Nat.ofDigitChars_ten_toDigits]

namespace Names

variable {slots slots' : List Nat} {text left right : List Char} {slot : Nat}

theorem of_plain (noName : 'G' ∉ text) : Names [] text := by
  simpa using plain noName nil

theorem append (isLeft : Names slots left) (isRight : Names slots' right) :
    Names (slots ++ slots') (left ++ right) := by
  induction isLeft with
  | nil => exact isRight
  | plain noName _ ih =>
      rw [List.append_assoc]
      exact plain noName ih
  | accessor slot _ ih =>
      rw [List.append_assoc]
      exact accessor slot ih

/-- The names that occur in a text are those that it was made of. -/
theorem occurs_iff (names : Names slots text) : accessorName slot <:+: text ↔ slot ∈ slots := by
  induction names with
  | nil => simp [accessorName]
  | plain noName _ ih => rw [← ih, accessorName, infix_append_iff noName]
  | @accessor slot' slots right _ ih =>
      -- behind its first character a name has no `G`, so no other name starts within it
      have noName : 'G' ∉ "etTexture".toList ++ Nat.toDigits 10 slot' ++ ['('] := by
        have noDigit := (isDigits_toDigits slot').notMem (c := 'G') rfl
        simp [noDigit]
      have behind : accessorName slot <:+: right ↔ accessorName slot <:+:
          "etTexture".toList ++ Nat.toDigits 10 slot' ++ ['('] ++ right :=
        (infix_append_iff noName).symm
      rw [List.mem_cons, ← ih, behind]
      refine List.infix_cons_iff.trans (or_congr_left ⟨slot_of_begins, ?_⟩)
      rintro rfl
      exact List.prefix_append _ _

end Names

/-! ## Expressions -/

theorem exists_digit {base n : Nat} {c : Char} (large : 1 < base)
    (member : c ∈ Nat.toDigits base n) : ∃ digit < base, c = digit.digitChar := by
  induction n using Nat.strongRecOn with
  | ind n ih =>
      rw [Nat.toDigits_eq_if large] at member
      split at member
      · rename_i small
        exact ⟨n, small, List.mem_singleton.mp member⟩
      · rename_i several
        rcases List.mem_append.mp member with member | member
        · exact ih (n / base) (Nat.div_lt_self (by omega) large) member
        · exact ⟨n % base, Nat.mod_lt n (by omega), List.mem_singleton.mp member⟩

/-- Numbers are written without a `G`, as literals and as bits. -/
theorem Binary32.names_shader (value : Binary32) : Names [] value.shader.toList := by
  refine .of_plain ?_
  by_cases isFinite : value.isFinite = true
  · have digits := (Layout.isNumeral_decimalText (value.shortest Layout.literal.tie)).notMem
      (c := 'G') rfl (by decide)
    have literal : 'G' ∉ Layout.literal.numberText value := by
      unfold Layout.numberText
      split <;> simp [digits]
    simp [shader, shaderScalar, literal?, isFinite, literal]
  · have upper : ∀ digit < 16, (Nat.digitChar digit).toUpper ≠ 'G' := by decide
    have bits : 'G' ∉ value.hexDigits.map Char.toUpper := by
      intro member
      obtain ⟨c, isDigit, isUpper⟩ := List.mem_map.mp member
      obtain ⟨digit, small, rfl⟩ : ∃ digit < 16, c = Nat.digitChar digit := by
        rcases List.mem_append.mp isDigit with isZero | isDigit
        · exact ⟨0, by decide, List.eq_of_mem_replicate isZero⟩
        · exact exists_digit (by decide) isDigit
      exact upper digit small isUpper
    simp [shader, shaderScalar, literal?, isFinite, bits]

/-- Pieces without a `G` leave the names of the texts between them. -/
theorem names_weave {pieces texts : List (List Char)} {slots : List (List Nat)}
    (names : List.Forall₂ Names slots texts) (fits : pieces.length = texts.length + 1)
    (plain : ∀ piece ∈ pieces, 'G' ∉ piece) : Names slots.flatten (weave pieces texts) := by
  induction names generalizing pieces with
  | nil =>
      obtain ⟨piece, rfl⟩ := List.length_eq_one_iff.mp fits
      exact .of_plain (plain piece (.head _))
  | cons first _ ih =>
      cases pieces with
      | nil => cases fits
      | cons piece pieces =>
          have rest := ih (Nat.succ.inj fits) fun piece member => plain piece (.tail _ member)
          exact .plain (plain piece (.head _)) (first.append rest)

theorem Operator.names_pieces (op : Operator) :
    op.pieces.length = 2 + 1 ∧ ∀ piece ∈ op.pieces, 'G' ∉ piece := by
  cases op <;> decide

theorem Function.names_pieces : ∀ function ∈ table,
    function.pieces.length = function.arity + 1 ∧ ∀ piece ∈ function.pieces, 'G' ∉ piece := by
  decide +kernel

namespace Expr

/-- A call names what its arguments name, each of them once and in order. -/
theorem names_call {name : String} {span : Span} {text : String} (exprs : List Expr)
    (names : ∀ expr ∈ exprs, ∀ text, expr.shader = .ok text → Names expr.images text.toList)
    (written : callShader name (exprs.map shader) span = .ok text) :
    Names (exprs.map images).flatten text.toList := by
  obtain ⟨function, texts, found, isTexts, rendered⟩ := callShader_eq_ok written
  obtain ⟨member, isArity, -⟩ := Function.of_find? found
  have count : exprs.length = texts.length := by simpa using congrArg List.length isTexts
  rw [List.length_map, count] at isArity
  obtain ⟨fits, plain⟩ := Function.names_pieces function member
  have nonempty : texts = [] → ∃ whole, function.shape = .fixed whole := by
    rintro rfl
    exact Function.fixed_of_arity member isArity
  rw [← Shape.weave_pieces rendered nonempty, ← isArity]
  refine names_weave ?_ (fits.trans (by rw [isArity, List.length_map])) plain
  have written : List.Forall₂ (fun expr text => expr.shader = .ok text) exprs texts := by
    rwa [← List.forall₂_eq_eq_eq, List.forall₂_map_left_iff, List.forall₂_map_right_iff] at isTexts
  rw [List.forall₂_map_left_iff, List.forall₂_map_right_iff]
  refine ((List.forall₂_and_left exprs texts).mpr ⟨names, written⟩).imp ?_
  intro expr text both
  exact both.1 text both.2

/-- The shader text of a tree names the images of the tree. -/
theorem names_shader {expr : Expr} {text : String} (written : expr.shader = .ok text) :
    Names expr.images text.toList := by
  induction expr generalizing text with
  | number value =>
      cases written
      exact value.names_shader
  | image slot =>
      cases written
      have isText : ("GetTexture" ++ toString slot ++ "(coord)").toList =
          accessorName slot ++ "coord)".toList := by
        simp [accessorName]
      rw [isText]
      exact .accessor slot (.of_plain (by decide))
  | binary lhs op rhs ih ih' =>
      rw [shader] at written
      cases isLeft : lhs.shader with
      | error fault => simp [isLeft] at written
      | ok left =>
          cases isRight : rhs.shader with
          | error fault => simp [isLeft, isRight] at written
          | ok right =>
              simp only [isLeft, isRight, Except.ok.injEq] at written
              subst written
              obtain ⟨fits, plain⟩ := op.names_pieces
              have args : List.Forall₂ Names [lhs.images, rhs.images] [left.toList, right.toList] :=
                .cons (ih isLeft) (.cons (ih' isRight) .nil)
              have names := names_weave args fits plain
              simpa [weave_operator, images] using names
  | intrinsic name span => exact names_call [] (by simp) written
  | unary name arg span ih =>
      have names := names_call [arg] (List.forall_mem_singleton.mpr fun _ => ih) written
      simpa [images] using names
  | binaryCall name first second span ih ih' =>
      have names := names_call [first, second] (by simpa using ⟨@ih, @ih'⟩) written
      simpa [images] using names
  | tertiary name first second third span ih ih' ih'' =>
      have names := names_call [first, second, third] (by simpa using ⟨@ih, @ih', @ih''⟩) written
      simpa [images] using names

end Expr

/-! ## Declarations -/

namespace Prelude

/-- The head of the definition of an accessor. -/
def definition (slot : Nat) : String := "float4 GetTexture" ++ toString slot ++ "(uint3 coord)"

theorem names_digits (slot : Nat) : Names [] (toString slot).toList := by
  refine .of_plain ?_
  rw [Nat.toString_eq_repr, Nat.toList_repr]
  exact (isDigits_toDigits slot).notMem rfl

theorem names_binding (slot : Nat) : Names [] (binding slot).toList := by
  have word {text : String} (noName : 'G' ∉ text.toList) : Names [] text.toList := .of_plain noName
  unfold binding
  rw [String.toList_append, String.toList_append, String.toList_append, String.toList_append]
  exact ((((word (by decide)).append (names_digits slot)).append (word (by decide))).append
    (names_digits slot)).append (word (by decide))

theorem toList_definition (slot : Nat) :
    (definition slot).toList =
      "float4 ".toList ++ (accessorName slot ++ "uint3 coord)".toList) := by
  have name : "float4 GetTexture".toList = "float4 ".toList ++ 'G' :: "etTexture".toList := by
    decide
  have bracket : "(uint3 coord)".toList = '(' :: "uint3 coord)".toList := by decide
  unfold definition accessorName
  rw [String.toList_append, String.toList_append, name, bracket, Nat.toString_eq_repr,
    Nat.toList_repr]
  simp only [List.append_assoc, List.cons_append, List.nil_append]

/-- A definition goes on with its body. -/
theorem toList_getter (slot : Nat) :
    (getter slot).toList =
      (definition slot).toList ++ (" \x7b return texture".toList ++ ((toString slot).toList ++
        ".Load(int4(coord.x, coord.y, layer, level)); \x7d\n".toList)) := by
  have head : "(uint3 coord) \x7b return texture" = "(uint3 coord)" ++ " \x7b return texture" := by
    decide
  unfold getter definition
  rw [head]
  simp only [String.append_assoc, ← String.toList_append]

theorem names_getter (slot : Nat) : Names [slot] (getter slot).toList := by
  rw [toList_getter, toList_definition, List.append_assoc, List.append_assoc]
  refine .plain (by decide) (.accessor slot (.plain (by decide) (.plain (by decide) ?_)))
  exact (names_digits slot).append (.of_plain (by decide))

/-- Texts that are written for a list of slots name what each of them names. -/
theorem names_join {write : Nat → String} {named : Nat → List Nat}
    (names : ∀ slot, Names (named slot) (write slot).toList) (slots : List Nat) :
    Names (slots.flatMap named) (String.join (slots.map write)).toList := by
  induction slots with
  | nil => exact .nil
  | cons slot slots ih =>
      rw [List.map_cons, String.join_cons, String.toList_append, List.flatMap_cons]
      exact (names slot).append ih

theorem names_getters (count : Nat) : Names (List.range count) (getters count).toList := by
  have bindings := names_join names_binding (List.range count)
  have accessors := names_join names_getter (List.range count)
  rw [List.flatMap_eq_nil_iff.mpr fun _ _ => rfl] at bindings
  rw [List.flatMap_singleton'] at accessors
  rw [getters, String.toList_append]
  exact bindings.append accessors

/-- The accessors that are defined are those of the slots below the count. -/
theorem definition_occurs_iff {slot count : Nat} :
    (definition slot).toList <:+: (getters count).toList ↔ slot < count := by
  rw [← List.mem_range]
  constructor
  · intro occurs
    rw [← (names_getters count).occurs_iff]
    rw [toList_definition] at occurs
    exact (List.infix_append' ..).trans occurs
  · intro member
    have isWritten : getter slot ∈ (List.range count).map getter := List.mem_map_of_mem member
    have inGetter : (definition slot).toList <:+: (getter slot).toList := by
      rw [toList_getter]
      exact List.infix_append_left
    have inAccessors : (getter slot).toList <:+:
        (String.join ((List.range count).map getter)).toList := by
      rw [String.toList_join, List.flatMap_def]
      exact List.infix_of_mem_flatten (List.mem_map_of_mem isWritten)
    rw [getters, String.toList_append]
    exact (inGetter.trans inAccessors).trans List.infix_append_right

end Prelude

/-- The accessors that the shader text of a formula calls are those of the slots that are reported,
and the declarations for a number of images define all of them if and only if the formula is valid
for that number; so those for the bound of its slots always do. -/
theorem Limits.compile_accessors {limits : Limits} {text expression : String} {equation : Equation}
    (compiled : limits.compile text = .ok equation) (emitted : equation.shader = .ok expression) :
    (∀ slot, ("GetTexture" ++ toString slot ++ "(").toList <:+: expression.toList ↔
      slot ∈ equation.usage.slots) ∧
    (∀ count, (∀ slot ∈ equation.usage.slots,
      ("float4 GetTexture" ++ toString slot ++ "(uint3 coord)").toList <:+:
        (Prelude.getters count).toList) ↔ equation.isValidFor count = true) ∧
    ∀ slot ∈ equation.usage.slots,
      ("float4 GetTexture" ++ toString slot ++ "(uint3 coord)").toList <:+:
        (Prelude.getters limits.slots).toList := by
  obtain ⟨tokens, reads, derives, -, isUsage⟩ := compile_eq_ok_iff.mp compiled
  rw [Usage.recordAll_empty] at isUsage
  have reported (slot : Nat) : slot ∈ equation.usage.slots ↔ slot ∈ equation.root.images := by
    rw [isUsage]
    exact Usage.mem_slots_ofList
  have below : ∀ slot ∈ equation.usage.slots, slot < limits.slots := by
    intro slot member
    rw [reported, derives.images] at member
    exact Lexeme.images_lt reads slot member
  refine ⟨fun slot => ?_, fun count => ?_, fun slot member => ?_⟩
  · rw [toList_accessorName, reported]
    exact (Expr.names_shader emitted).occurs_iff
  · have valid : equation.isValidFor count = true ↔
        ∀ slot ∈ equation.usage.slots, slot < count := by
      simp only [reported]
      rw [Equation.isValidFor, isUsage]
      exact Usage.isValidFor_ofList
    rw [valid]
    exact forall₂_congr fun slot _ => Prelude.definition_occurs_iff
  · exact Prelude.definition_occurs_iff.mpr (below slot member)

/-- `I1` and `I10` are told apart: eleven declarations are needed, and ten do not define `I10`. -/
theorem Limits.compile_accessors_ten :
    let limits : Limits := ⟨16, 4⟩
    let text := "rgb(I10, I1^I10, layer())"
    let equation : Equation :=
      ⟨.tertiary "rgb" (.image 10) (.binary (.image 1) .pow (.image 10))
        (.intrinsic "layer" ⟨17, 23⟩) ⟨0, 4⟩, ⟨some 10, some 1, some 10, [1, 10]⟩⟩
    let expression := "float4((GetTexture10(coord)).r,(powEx(GetTexture1(coord)," ++
      "GetTexture10(coord))).r,(f4(layer)).r,1.0)"
    limits.compile text = .ok equation ∧ equation.shader = .ok expression ∧
      ("GetTexture" ++ toString 1 ++ "(").toList <:+: expression.toList ∧
      ¬("GetTexture" ++ toString 0 ++ "(").toList <:+: expression.toList ∧
      ¬∀ slot ∈ equation.usage.slots,
        ("float4 GetTexture" ++ toString slot ++ "(uint3 coord)").toList <:+:
          (Prelude.getters 10).toList := by
  intro limits text equation expression
  have compiled : limits.compile text = .ok equation := by decide +kernel
  have emitted : equation.shader = .ok expression := by decide +kernel
  obtain ⟨occurs, defined, -⟩ := compile_accessors compiled emitted
  refine ⟨compiled, emitted, (occurs 1).mpr (by decide), fun zero => ?_, fun all => ?_⟩
  · exact absurd ((occurs 0).mp zero) (by decide)
  · exact absurd ((defined 10).mp all) (by decide)

end ImageFormula
