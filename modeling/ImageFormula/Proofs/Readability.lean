import ImageFormula.Expr.Shader
import ImageFormula.Proofs.Literals
import Mathlib.Data.List.Basic

/-!
# Unique readability of shader texts

The shader text of a tree is made of fixed pieces with the texts of its parts between them. Reading
from the left, the pieces tell what was written, whatever follows, so the text determines the tree
up to what it does not show: the places of calls, numbers with the same text, the choice between
names of one function, and a power of a base raised to zero (`ShaderTree`). The main statement is
`Expr.shader_eq_iff`.
-/

namespace ImageFormula

/-! ## Pieces with texts between them -/

/-- Neither text begins the other. -/
def Diverge (left right : List Char) : Prop := ¬left <+: right ∧ ¬right <+: left

instance (left right : List Char) : Decidable (Diverge left right) :=
  inferInstanceAs (Decidable (_ ∧ _))

namespace Diverge

variable {left right : List Char}

theorem symm (diverge : Diverge left right) : Diverge right left := ⟨diverge.2, diverge.1⟩

theorem append_ne (diverge : Diverge left right) (rest rest' : List Char) :
    left ++ rest ≠ right ++ rest' := by
  intro same
  rcases List.append_eq_append_iff.mp same with ⟨more, isRight, -⟩ | ⟨more, isLeft, -⟩
  · exact diverge.1 ⟨more, isRight.symm⟩
  · exact diverge.2 ⟨more, isLeft.symm⟩

/-- Texts that diverge still do when more follows. -/
theorem extend (diverge : Diverge left right) {left' right' : List Char} (begins : left <+: left')
    (begins' : right <+: right') : Diverge left' right' := by
  obtain ⟨more, rfl⟩ := begins
  obtain ⟨more', rfl⟩ := begins'
  constructor
  · rintro ⟨rest, same⟩
    exact diverge.append_ne (more ++ rest) more' (by rw [← same, List.append_assoc])
  · rintro ⟨rest, same⟩
    exact diverge.append_ne more (more' ++ rest) (by rw [← same, List.append_assoc])

/-- Texts diverge unless they are equal, if nothing that follows can hide a difference. -/
theorem of_append (equal : ∀ rest rest', left ++ rest = right ++ rest' → left = right) :
    left = right ∨ Diverge left right := by
  by_cases begins : left <+: right
  · obtain ⟨rest, same⟩ := begins
    exact .inl (equal rest [] (by simpa using same))
  · by_cases begins' : right <+: left
    · obtain ⟨rest, same⟩ := begins'
      exact .inl (equal [] rest (by simpa using same.symm))
    · exact .inr ⟨begins, begins'⟩

end Diverge

/-- What stands before the first occurrence of a character is determined. -/
theorem eq_of_append_cons {c : Char} {left right rest rest' : List Char} (notLeft : c ∉ left)
    (notRight : c ∉ right) (same : left ++ c :: rest = right ++ c :: rest') : left = right := by
  induction left generalizing right with
  | nil =>
      cases right with
      | nil => rfl
      | cons d right =>
          obtain ⟨rfl, -⟩ := List.cons.inj same
          exact absurd (.head _) notRight
  | cons d left ih =>
      cases right with
      | nil =>
          obtain ⟨rfl, -⟩ := List.cons.inj same
          exact absurd (.head _) notLeft
      | cons d' right =>
          obtain ⟨rfl, tails⟩ := List.cons.inj same
          rw [ih (fun member => notLeft (.tail _ member)) (fun member => notRight (.tail _ member))
            tails]

/-- At the first difference, the pieces diverge. -/
def Splits : List (List Char) → List (List Char) → Prop
  | piece :: pieces, piece' :: pieces' =>
    Diverge piece piece' ∨ (piece = piece' ∧ Splits pieces pieces')
  | _, _ => False

instance Splits.decide : (pieces pieces' : List (List Char)) → Decidable (Splits pieces pieces')
  | piece :: pieces, piece' :: pieces' =>
    have := Splits.decide pieces pieces'
    inferInstanceAs (Decidable (Diverge piece piece' ∨ (piece = piece' ∧ Splits pieces pieces')))
  | [], _ => isFalse (by simp [Splits])
  | _ :: _, [] => isFalse (by simp [Splits])

theorem Splits.symm {pieces pieces' : List (List Char)} (splits : Splits pieces pieces') :
    Splits pieces' pieces := by
  induction pieces generalizing pieces' with
  | nil => simp [Splits] at splits
  | cons piece pieces ih =>
      cases pieces' with
      | nil => simp [Splits] at splits
      | cons piece' pieces' =>
          rcases splits with diverge | ⟨same, splits⟩
          · exact .inl diverge.symm
          · exact .inr ⟨same.symm, ih splits⟩

theorem Splits.of_lead {lead piece : List Char} {pieces : List (List Char)}
    (splits : Splits [lead] pieces) (begins : lead <+: piece) : Splits [piece] pieces := by
  cases pieces with
  | nil => exact splits
  | cons first pieces =>
      rcases splits with diverge | ⟨-, impossible⟩
      · exact .inl (diverge.extend begins (List.prefix_refl first))
      · exact impossible.elim

/-- The pieces with the texts of the arguments between them. -/
def weave : List (List Char) → List (List Char) → List Char
  | piece :: pieces, arg :: args => piece ++ (arg ++ weave pieces args)
  | piece :: _, [] => piece
  | [], _ => []

/-- The pieces of a list: an opening, then the arguments, each between `left` and `right`, with
commas, then a closing. -/
def listPieces (opening left right closing : String) (count : Nat) : List (List Char) :=
  (opening ++ left).toList ::
    (List.replicate (count - 1) (right ++ "," ++ left).toList ++ [(right ++ closing).toList])

theorem weave_replicate (left right closing : String) (args : List String) :
    weave (List.replicate args.length (right ++ "," ++ left).toList ++ [(right ++ closing).toList])
        (args.map String.toList) =
      right.toList ++
        ((args.flatMap fun arg => ("," ++ (left ++ arg ++ right)).toList) ++ closing.toList) := by
  induction args with
  | nil => simp [weave]
  | cons first more ih =>
      simp only [List.length_cons, List.replicate_succ, List.cons_append, List.map_cons, weave, ih]
      simp

theorem intercalate_cons (first : String) (more : List String) :
    (String.intercalate "," (first :: more)).toList =
      first.toList ++ more.flatMap fun arg => ("," ++ arg).toList := by
  induction more generalizing first with
  | nil => simp
  | cons second more ih => simp_all

/-- The text of a list with at least one argument. -/
theorem weave_listPieces (opening left right closing : String) {args : List String}
    (nonempty : args ≠ []) :
    weave (listPieces opening left right closing args.length) (args.map String.toList) =
      (opening ++ String.intercalate "," (args.map fun arg => left ++ arg ++ right) ++
        closing).toList := by
  cases args with
  | nil => exact absurd rfl nonempty
  | cons first more =>
      simp only [listPieces, List.length_cons, Nat.add_one_sub_one, List.map_cons, weave,
        weave_replicate]
      simp only [String.toList_append, intercalate_cons, List.flatMap_map]
      simp

/-! ## What shader texts show -/

/-- A tree as far as its shader text shows it: numbers are their texts, and calls have no place. -/
inductive ShaderTree where
  | number (text : String)
  | image (slot : Nat)
  | operation (op : Operator) (lhs rhs : ShaderTree)
  | call (name : String) (args : List ShaderTree)

/-- The first name in the table of the functions that take as many arguments and are written in the
same way. -/
def Function.commonName (function : Function) : String :=
  let alike := Function.table.find? fun other =>
    other.arity == function.arity && other.shape == function.shape
  (alike.getD function).name

namespace Function

theorem exists_commonName {function : Function} (member : function ∈ table) :
    ∃ common ∈ table, function.commonName = common.name ∧ common.arity = function.arity ∧
      common.shape = function.shape := by
  unfold commonName
  cases alike : table.find? fun other =>
      other.arity == function.arity && other.shape == function.shape with
  | none => simpa using List.find?_eq_none.mp alike function member
  | some common =>
      have same := List.find?_some alike
      simp only [Bool.and_eq_true, beq_iff_eq] at same
      exact ⟨common, List.mem_of_find?_eq_some alike, rfl, same.1, same.2⟩

/-- The common name depends on the arity and the shape only. -/
theorem commonName_congr {function other : Function} (member : function ∈ table)
    (sameArity : function.arity = other.arity) (sameShape : function.shape = other.shape) :
    function.commonName = other.commonName := by
  unfold commonName
  rw [← sameArity, ← sameShape]
  cases alike : table.find? fun other =>
      other.arity == function.arity && other.shape == function.shape with
  | none => simpa using List.find?_eq_none.mp alike function member
  | some common => rfl

end Function

namespace ShaderTree

/-- A call, by the common name of the function. A power is an operation on its base, which is first
raised to zero. -/
def ofCall (name : String) (args : List ShaderTree) : ShaderTree :=
  match Text.sameLetters "pow" name, args with
  | true, [base, exponent] =>
    operation .pow (call "max" [base, number Binary32.zero.shader]) exponent
  | _, _ =>
    match Function.find? name args.length with
    | some function => call function.commonName args
    | none => call name args

/-- The direct parts. -/
def args : ShaderTree → List ShaderTree
  | number _ | image _ => []
  | operation _ lhs rhs => [lhs, rhs]
  | call _ args => args

theorem sizeOf_args {tree arg : ShaderTree} (member : arg ∈ tree.args) :
    sizeOf arg < sizeOf tree := by
  cases tree with
  | number | image => simp [args] at member
  | operation op lhs rhs =>
      rcases List.mem_pair.mp member with rfl | rfl
      · simp only [operation.sizeOf_spec]
        omega
      · simp only [operation.sizeOf_spec]
        omega
  | call name args =>
      have smaller := List.sizeOf_lt_of_mem member
      simp [ShaderTree.args] at smaller ⊢
      omega

/-- What holds of a tree if it holds of its parts holds of all trees. -/
theorem args_induction {holds : ShaderTree → Prop}
    (step : ∀ tree, (∀ arg ∈ tree.args, holds arg) → holds tree) (tree : ShaderTree) : holds tree :=
  step tree fun arg member =>
    have := sizeOf_args member
    args_induction step arg
termination_by tree

end ShaderTree

namespace Expr

/-- What the shader text of a tree shows of it. -/
def shaderTree : Expr → ShaderTree
  | number value => .number value.shader
  | image slot => .image slot
  | binary lhs op rhs => .operation op lhs.shaderTree rhs.shaderTree
  | intrinsic name _ => .ofCall name []
  | unary name arg _ => .ofCall name [arg.shaderTree]
  | binaryCall name first second _ => .ofCall name [first.shaderTree, second.shaderTree]
  | tertiary name first second third _ =>
    .ofCall name [first.shaderTree, second.shaderTree, third.shaderTree]

end Expr

/-! ## The pieces of the parts of speech -/

def Operator.pieces : Operator → List (List Char)
  | .pow => listPieces "powEx(" "" "" ")" 2
  | op => [['('], [op.symbol], [')']]

/-- The pieces of a call with a number of arguments. -/
def Shape.pieces : Shape → Nat → List (List Char)
  | call target, count => listPieces (target ++ "(") "" "" ")" count
  | swizzle channels, _ => [['('], (")." ++ channels).toList]
  | scalarOfColours target, count => listPieces ("f4(" ++ target ++ "(") "(" ").xyz" "))" count
  | colourOfColours target, count =>
    listPieces ("float4(" ++ target ++ "(") "(" ").xyz" "),1.0)" count
  | testOfColour target, _ => [("f4(" ++ target ++ "((").toList, ").xyz)?1.0:0.0)".toList]
  | clampedPower, _ =>
    ["powEx(max(".toList, ("," ++ Binary32.zero.shader ++ "),").toList, ")".toList]
  | composeRgb, _ => listPieces "float4(" "(" ").r" ",1.0)" 3
  | lerpScalar, _ => ["lerp(".toList, ",".toList, ",(".toList, ").r)".toList]
  | fixed text, _ => [text.toList]

def Function.pieces (function : Function) : List (List Char) :=
  function.shape.pieces function.arity

theorem weave_operator (op : Operator) (lhs rhs : String) :
    weave op.pieces [lhs.toList, rhs.toList] = (Expr.operationShader op lhs rhs).toList := by
  cases op <;> simp [Operator.pieces, Expr.operationShader, listPieces, weave, Operator.symbol]

/-- What a shape renders is its pieces with the arguments between them. -/
theorem Shape.weave_pieces {shape : Shape} {args : List String} {text : String}
    (rendered : shape.render? args = some text)
    (nonempty : args = [] → ∃ whole, shape = .fixed whole) :
    weave (shape.pieces args.length) (args.map String.toList) = text.toList := by
  have list (opening left right closing : String) (unfixed : ∀ whole, shape ≠ .fixed whole) :=
    weave_listPieces opening left right closing fun isNil =>
      have ⟨whole, isFixed⟩ := nonempty isNil
      unfixed whole isFixed
  have isColour : colour = fun arg => "(" ++ arg ++ ").xyz" := rfl
  unfold render? at rendered
  split at rendered
  all_goals cases rendered
  · simp [pieces, list]
  · simp [pieces, weave]
  · simp [pieces, list, isColour]
  · simp [pieces, list, isColour]
  · simp [pieces, weave, colour]
  · simp [pieces, weave]
  · simp [pieces, listPieces, weave, channel]
  · simp [pieces, weave, channel]
  · simp [pieces, weave]

/-! ## Numbers and images -/

theorem mem_of_isDigit {c : Char} (isDigit : c.isDigit = true) : c ∈ "0123456789".toList := by
  have bounds := Char.isDigit_iff_toNat.mp isDigit
  have low : 48 ≤ c.toNat := bounds.1
  have high : c.toNat ≤ 57 := bounds.2
  have ofCode : ∀ code < 10, Char.ofNat (48 + code) ∈ "0123456789".toList := by decide
  simpa [low] using ofCode (c.toNat - 48) (by omega)

theorem IsDigits.notMem {digits : List Char} (isDigits : IsDigits digits) {c : Char}
    (notDigit : c.isDigit = false) : c ∉ digits := by
  intro member
  rw [isDigits.digits c member] at notDigit
  cases notDigit

/-- Numerals have digits, a point, and an exponent with its sign. -/
theorem IsNumeral.notMem {text : List Char} (isNumeral : IsNumeral text) {c : Char}
    (notDigit : c.isDigit = false) (notMark : c ∉ ['.', 'e', '-']) : c ∉ text := by
  obtain ⟨isWhole, isFraction, isExponent⟩ := isNumeral
  simp only [List.mem_cons, List.not_mem_nil, or_false, not_or] at notMark
  obtain ⟨notPoint, notE, notMinus⟩ := notMark
  have fraction : ∀ {text}, IsFraction text → c ∉ text := by
    rintro _ (_ | isDigits)
    · simp
    · simp [notPoint, isDigits.notMem notDigit]
  have exponent : ∀ {text}, IsExponent text → c ∉ text := by
    rintro _ (_ | isDigits | isDigits)
    · simp
    · simp [notE, isDigits.notMem notDigit]
    · simp [notE, notMinus, isDigits.notMem notDigit]
  simp [isWhole.notMem notDigit, fraction isFraction, exponent isExponent]

theorem IsNumeral.close_notMem {text : List Char} (isNumeral : IsNumeral text) : ')' ∉ text :=
  isNumeral.notMem rfl (by decide)

/-- How the texts of numbers begin. -/
def numberLeads : List (List Char) :=
  "f4(asfloat(".toList :: "-0123456789".toList.map fun c => "f4(".toList ++ [c]

namespace Binary32

theorem length_hexDigits (value : Binary32) : value.hexDigits.length = 8 := by
  have fits : (Nat.toDigits 16 value.bits.toNat).length ≤ 8 :=
    (Nat.length_toDigits_le_iff (by decide) (by decide)).mpr value.bits.toNat_lt
  simp [hexDigits, fits]

/-- The text of a number is a literal with an optional sign, or has eight digits. -/
theorem shader_cases (value : Binary32) :
    (∃ first literal, first ∈ "-0123456789".toList ∧ ')' ∉ first :: literal ∧
      value.shader.toList = "f4(".toList ++ (first :: literal ++ [')'])) ∨
    ∃ digits : List Char, digits.length = 8 ∧
      value.shader.toList = "f4(asfloat(0x".toList ++ (digits ++ "u))".toList) := by
  by_cases isFinite : value.isFinite = true
  · refine .inl ?_
    have isNumeral := Layout.isNumeral_decimalText (value.shortest Layout.literal.tie)
    have isLiteral : value.shader.toList =
        "f4(".toList ++ (Layout.literal.numberText value ++ [')']) := by
      simp [shader, shaderScalar, literal?, isFinite]
    rw [isLiteral]
    unfold Layout.numberText
    split
    · exact ⟨'-', _, by decide, by simp [isNumeral.close_notMem], rfl⟩
    · obtain ⟨first, rest, isFirst, isDigit⟩ := isNumeral.first
      have close := isNumeral.close_notMem
      rw [isFirst] at close ⊢
      exact ⟨first, rest, .tail _ (mem_of_isDigit isDigit), close, rfl⟩
  · refine .inr ⟨value.hexDigits.map Char.toUpper, by simp [length_hexDigits], ?_⟩
    simp [shader, shaderScalar, literal?, isFinite]

theorem exists_lead (value : Binary32) : ∃ lead ∈ numberLeads, lead <+: value.shader.toList := by
  rcases value.shader_cases with ⟨first, literal, member, -, isText⟩ | ⟨digits, -, isText⟩
  · refine ⟨"f4(".toList ++ [first], .tail _ (List.mem_map.mpr ⟨first, member, rfl⟩), ?_⟩
    exact ⟨literal ++ [')'], by simp [isText]⟩
  · exact ⟨"f4(asfloat(".toList, .head _, "0x".toList ++ (digits ++ "u))".toList), by simp [isText]⟩

/-- The texts of two numbers are equal or diverge. -/
theorem shader_eq_or_diverge (value value' : Binary32) :
    value.shader.toList = value'.shader.toList ∨
      Diverge value.shader.toList value'.shader.toList := by
  have leads : ∀ lead ∈ "-0123456789".toList.map fun c => "f4(".toList ++ [c],
      Diverge lead "f4(asfloat(0x".toList := by decide
  have mixed {first : Char} (isFirst : first ∈ "-0123456789".toList) :=
    leads ("f4(".toList ++ [first]) (List.mem_map.mpr ⟨first, isFirst, rfl⟩)
  rcases value.shader_cases with
      ⟨first, literal, isFirst, closed, isText⟩ | ⟨digits, eight, isText⟩ <;>
    rcases value'.shader_cases with
      ⟨first', literal', isFirst', closed', isText'⟩ | ⟨digits', eight', isText'⟩ <;>
    rw [isText, isText']
  · -- a literal goes up to its bracket, which it does not hold
    refine Diverge.of_append fun rest rest' same => ?_
    have same : (first :: literal) ++ ')' :: rest = (first' :: literal') ++ ')' :: rest' := by
      simpa using same
    rw [eq_of_append_cons closed closed' same]
  · exact .inr ((mixed isFirst).extend ⟨literal ++ [')'], by simp⟩ ⟨_, rfl⟩)
  · exact .inr ((mixed isFirst').symm.extend ⟨_, rfl⟩ ⟨literal' ++ [')'], by simp⟩)
  · -- bits are written with eight digits each
    refine Diverge.of_append fun rest rest' same => ?_
    have same : digits ++ ("u))".toList ++ rest) = digits' ++ ("u))".toList ++ rest') := by
      simpa using same
    rw [(List.append_inj same (by rw [eight, eight'])).1]

end Binary32

/-- The shader text of an image. -/
def imageShader (slot : Nat) : List Char :=
  "GetTexture".toList ++ (Nat.toDigits 10 slot ++ '(' :: "coord)".toList)

theorem toList_imageShader (slot : Nat) :
    ("GetTexture" ++ toString slot ++ "(coord)").toList = imageShader slot := by
  have digits : (toString slot).toList = Nat.toDigits 10 slot := by simp
  have coord : "(coord)".toList = '(' :: "coord)".toList := by simp
  unfold imageShader
  rw [String.toList_append, String.toList_append, digits, coord, List.append_assoc]

/-- The texts of two images diverge. -/
theorem imageShader_diverge (slot slot' : Nat) :
    slot = slot' ∨ Diverge (imageShader slot) (imageShader slot') := by
  have noBracket (slot : Nat) : '(' ∉ Nat.toDigits 10 slot := (isDigits_toDigits slot).notMem rfl
  have equal (rest rest' : List Char)
      (same : imageShader slot ++ rest = imageShader slot' ++ rest') : slot = slot' := by
    unfold imageShader at same
    rw [List.append_assoc, List.append_assoc, List.append_assoc, List.append_assoc] at same
    have same := List.append_cancel_left same
    have digits := eq_of_append_cons (noBracket slot) (noBracket slot') same
    rw [← Nat.ofDigitChars_ten_toDigits (n := slot), digits, Nat.ofDigitChars_ten_toDigits]
  rcases Diverge.of_append fun rest rest' same => congrArg imageShader (equal rest rest' same) with
    same | diverge
  · exact .inl (equal [] [] (by rw [same]))
  · exact .inr diverge

/-! ## What was written is told by its pieces -/

namespace ShaderTree

/-- `Head tree pieces`: the tree can be written, with these pieces around its parts. -/
inductive Head : ShaderTree → List (List Char) → Prop
  | number (value : Binary32) : Head (number value.shader) [value.shader.toList]
  | image (slot : Nat) : Head (image slot) [imageShader slot]
  | operation (op : Operator) (lhs rhs : ShaderTree) : Head (operation op lhs rhs) op.pieces
  | call {function : Function} {args : List ShaderTree} (member : function ∈ Function.table)
      (unclamped : function.shape ≠ .clampedPower) (fits : args.length = function.arity) :
      Head (call function.commonName args) function.pieces

end ShaderTree

def Operator.all : List Operator := [.pow, .mul, .div, .add, .sub]

theorem Operator.mem_all (op : Operator) : op ∈ Operator.all := by
  cases op <;> decide

theorem Operator.pieces_eq_or_splits (op op' : Operator) :
    op = op' ∨ Splits op.pieces op'.pieces := by
  have all : ∀ op ∈ Operator.all, ∀ op' ∈ Operator.all,
      op = op' ∨ Splits op.pieces op'.pieces := by
    decide +kernel
  exact all op op.mem_all op' op'.mem_all

namespace Function

theorem pieces_eq_or_splits : ∀ function ∈ table, ∀ other ∈ table,
    function.shape ≠ .clampedPower → other.shape ≠ .clampedPower →
    (function.arity = other.arity ∧ function.shape = other.shape) ∨
      Splits function.pieces other.pieces := by
  decide +kernel

theorem operator_splits (op : Operator) : ∀ function ∈ table,
    function.shape ≠ .clampedPower → Splits op.pieces function.pieces := by
  have all : ∀ op ∈ Operator.all, ∀ function ∈ table,
      function.shape ≠ .clampedPower → Splits op.pieces function.pieces := by
    decide +kernel
  exact all op op.mem_all

end Function

/-- The pieces of operations and calls. -/
def innerPieces : List (List (List Char)) :=
  Operator.all.map Operator.pieces ++ Function.table.map Function.pieces

theorem Operator.pieces_mem (op : Operator) : op.pieces ∈ innerPieces :=
  List.mem_append_left _ (List.mem_map.mpr ⟨op, op.mem_all, rfl⟩)

theorem Function.pieces_mem {function : Function} (member : function ∈ Function.table) :
    function.pieces ∈ innerPieces :=
  List.mem_append_right _ (List.mem_map.mpr ⟨function, member, rfl⟩)

/-- Neither numbers nor images begin like an operation or a call. -/
theorem leads_split : ∀ lead ∈ "GetTexture".toList :: numberLeads, ∀ pieces ∈ innerPieces,
    Splits [lead] pieces := by
  decide +kernel

theorem number_splits (value : Binary32) {pieces : List (List Char)}
    (inner : pieces ∈ innerPieces) : Splits [value.shader.toList] pieces := by
  obtain ⟨lead, isLead, begins⟩ := value.exists_lead
  exact (leads_split lead (.tail _ isLead) pieces inner).of_lead begins

theorem image_splits (slot : Nat) {pieces : List (List Char)} (inner : pieces ∈ innerPieces) :
    Splits [imageShader slot] pieces :=
  (leads_split _ (.head _) pieces inner).of_lead (List.prefix_append _ _)

theorem number_splits_image (value : Binary32) (slot : Nat) :
    Splits [value.shader.toList] [imageShader slot] := by
  have diverge : ∀ lead ∈ numberLeads, Diverge lead "GetTexture".toList := by decide
  obtain ⟨lead, isLead, begins⟩ := value.exists_lead
  exact .inl ((diverge lead isLead).extend begins (List.prefix_append _ _))

namespace ShaderTree.Head

variable {tree tree' : ShaderTree} {pieces pieces' : List (List Char)}

/-- There is a piece before, between and after the parts. -/
theorem length_pieces (head : Head tree pieces) : pieces.length = tree.args.length + 1 := by
  have table : ∀ function ∈ Function.table, function.pieces.length = function.arity + 1 := by
    decide +kernel
  cases head with
  | number | image => rfl
  | operation op => cases op <;> rfl
  | call member unclamped fits => rw [table _ member, ← fits]; rfl

/-- Two heads have the same pieces, and then differ in their parts only, or their pieces split. -/
theorem eq_or_splits (head : Head tree pieces) (head' : Head tree' pieces') :
    (pieces = pieces' ∧ (tree.args = tree'.args → tree = tree')) ∨ Splits pieces pieces' := by
  cases head with
  | number value =>
      cases head' with
      | number value' =>
          rcases value.shader_eq_or_diverge value' with same | diverge
          · exact .inl ⟨by rw [same], fun _ => by rw [String.toList_inj.mp same]⟩
          · exact .inr (.inl diverge)
      | image slot' => exact .inr (number_splits_image value slot')
      | operation op => exact .inr (number_splits value op.pieces_mem)
      | call member => exact .inr (number_splits value (Function.pieces_mem member))
  | image slot =>
      cases head' with
      | number value' => exact .inr (number_splits_image value' slot).symm
      | image slot' =>
          rcases imageShader_diverge slot slot' with rfl | diverge
          · exact .inl ⟨rfl, fun _ => rfl⟩
          · exact .inr (.inl diverge)
      | operation op => exact .inr (image_splits slot op.pieces_mem)
      | call member => exact .inr (image_splits slot (Function.pieces_mem member))
  | operation op lhs rhs =>
      cases head' with
      | number value' => exact .inr (number_splits value' op.pieces_mem).symm
      | image slot' => exact .inr (image_splits slot' op.pieces_mem).symm
      | operation op' lhs' rhs' =>
          rcases op.pieces_eq_or_splits op' with rfl | splits
          · exact .inl ⟨rfl, fun same => by simp_all [args]⟩
          · exact .inr splits
      | call member unclamped => exact .inr (Function.operator_splits op _ member unclamped)
  | call member unclamped fits =>
      cases head' with
      | number value' => exact .inr (number_splits value' (Function.pieces_mem member)).symm
      | image slot' => exact .inr (image_splits slot' (Function.pieces_mem member)).symm
      | operation op' => exact .inr (Function.operator_splits op' _ member unclamped).symm
      | call member' unclamped' fits' =>
          rcases Function.pieces_eq_or_splits _ member _ member' unclamped unclamped' with
            ⟨sameArity, sameShape⟩ | splits
          · -- the names may differ, but not the common name
            refine .inl ⟨?_, fun same => ?_⟩
            · rw [Function.pieces, sameArity, sameShape, ← Function.pieces]
            · rw [Function.commonName_congr member sameArity sameShape]
              exact congrArg _ same
          · exact .inr splits

end ShaderTree.Head

/-! ## Texts and trees determine each other -/

/-- `Shows tree text`: the text of the tree is the text. -/
inductive Shows : ShaderTree → List Char → Prop
  | intro {tree : ShaderTree} {pieces texts : List (List Char)} (head : tree.Head pieces)
      (args : List.Forall₂ Shows tree.args texts) : Shows tree (weave pieces texts)

/-- Where a text of the tree and a text of another tree are equal with what follows them, both the
trees and what follows are. -/
def ShaderTree.Readable (tree : ShaderTree) : Prop :=
  ∀ {tree' : ShaderTree} {text text' rest rest' : List Char}, Shows tree text → Shows tree' text' →
    text ++ rest = text' ++ rest' → tree = tree' ∧ rest = rest'

section weaving

variable {trees trees' : List ShaderTree} {texts texts' pieces pieces' : List (List Char)}

/-- With the same pieces around them, readable arguments are read off. -/
theorem weave_inj {rest rest' : List Char} (readable : ∀ tree ∈ trees, tree.Readable)
    (args : List.Forall₂ Shows trees texts) (args' : List.Forall₂ Shows trees' texts')
    (length : pieces.length = trees.length + 1) (length' : pieces.length = trees'.length + 1)
    (same : weave pieces texts ++ rest = weave pieces texts' ++ rest') :
    trees = trees' ∧ rest = rest' := by
  induction args generalizing pieces trees' texts' with
  | nil =>
      obtain rfl : trees' = [] := List.length_eq_zero_iff.mp (by simp_all)
      cases args'
      exact ⟨rfl, List.append_cancel_left same⟩
  | @cons tree text trees texts first args ih =>
      cases args' with
      | nil => simp_all
      | @cons tree' text' trees' texts' first' args' =>
          cases pieces with
          | nil => simp at length
          | cons piece pieces =>
              -- behind the piece stand the texts of the two arguments, and their rests after them
              simp only [weave, List.append_assoc, List.append_cancel_left_eq] at same
              obtain ⟨rfl, same⟩ := readable tree (.head _) first first' same
              obtain ⟨rfl, same⟩ := ih (fun tree member => readable tree (.tail _ member)) args'
                (by simpa using length) (by simpa using length') same
              exact ⟨rfl, same⟩

theorem Diverge.weave_ne {piece piece' : List Char} (diverge : Diverge piece piece')
    (pieces texts pieces' texts' : List (List Char)) (rest rest' : List Char) :
    weave (piece :: pieces) texts ++ rest ≠ weave (piece' :: pieces') texts' ++ rest' := by
  have opens (piece : List Char) (pieces texts : List (List Char)) :
      ∃ more, weave (piece :: pieces) texts = piece ++ more := by
    cases texts with
    | nil => exact ⟨[], by simp [weave]⟩
    | cons text texts => exact ⟨_, rfl⟩
  obtain ⟨more, isMore⟩ := opens piece pieces texts
  obtain ⟨more', isMore'⟩ := opens piece' pieces' texts'
  rw [isMore, isMore', List.append_assoc, List.append_assoc]
  exact diverge.append_ne _ _

theorem Splits.exists_cons (splits : Splits pieces pieces') :
    ∃ piece rest piece' rest', pieces = piece :: rest ∧ pieces' = piece' :: rest' ∧
      (Diverge piece piece' ∨ (piece = piece' ∧ Splits rest rest')) := by
  cases pieces with
  | nil => exact splits.elim
  | cons piece rest =>
      cases pieces' with
      | nil => exact splits.elim
      | cons piece' rest' => exact ⟨piece, rest, piece', rest', rfl, rfl, splits⟩

/-- With pieces that split around them, readable arguments do not hide the difference. -/
theorem Splits.weave_ne (splits : Splits pieces pieces')
    (readable : ∀ tree ∈ trees, tree.Readable) (args : List.Forall₂ Shows trees texts)
    (args' : List.Forall₂ Shows trees' texts') (length : pieces.length = trees.length + 1)
    (length' : pieces'.length = trees'.length + 1) (rest rest' : List Char) :
    weave pieces texts ++ rest ≠ weave pieces' texts' ++ rest' := by
  induction args generalizing pieces pieces' trees' texts' with
  | nil =>
      obtain ⟨piece, more, piece', more', rfl, rfl, diverge | ⟨-, later⟩⟩ := splits.exists_cons
      · exact diverge.weave_ne _ _ _ _ _ _
      · obtain rfl : more = [] := List.length_eq_zero_iff.mp (by simpa using length)
        exact later.elim
  | @cons tree text trees texts first args ih =>
      obtain ⟨piece, more, piece', more', rfl, rfl, diverge | ⟨rfl, later⟩⟩ := splits.exists_cons
      · exact diverge.weave_ne _ _ _ _ _ _
      · -- the pieces differ later, so an argument follows on both sides
        cases args' with
        | nil =>
            obtain rfl : more' = [] := List.length_eq_zero_iff.mp (by simpa using length')
            cases more <;> exact later.elim
        | cons first' args' =>
            intro same
            simp only [weave, List.append_assoc, List.append_cancel_left_eq] at same
            obtain ⟨-, same⟩ := readable tree (.head _) first first' same
            exact ih later (fun tree member => readable tree (.tail _ member)) args'
              (by simpa using length) (by simpa using length') same

end weaving

/-- All trees are readable. -/
theorem ShaderTree.readable (tree : ShaderTree) : tree.Readable := by
  induction tree using ShaderTree.args_induction with
  | step tree ih =>
      rintro tree' _ _ rest rest' ⟨head, args⟩ ⟨head', args'⟩ same
      rcases head.eq_or_splits head' with ⟨rfl, sameTree⟩ | splits
      · obtain ⟨sameArgs, sameRest⟩ :=
          weave_inj ih args args' head.length_pieces head'.length_pieces same
        exact ⟨sameTree sameArgs, sameRest⟩
      · exact (splits.weave_ne ih args args' head.length_pieces head'.length_pieces _ _ same).elim

theorem Function.shape_of_name : ∀ function ∈ table, ∀ other ∈ table,
    function.arity = other.arity → function.name = other.name → function.shape = other.shape := by
  decide +kernel

theorem Function.shape_of_commonName {function other : Function} (member : function ∈ table)
    (member' : other ∈ table) (sameArity : function.arity = other.arity)
    (sameName : function.commonName = other.commonName) : function.shape = other.shape := by
  obtain ⟨common, inTable, isName, isArity, isShape⟩ := exists_commonName member
  obtain ⟨common', inTable', isName', isArity', isShape'⟩ := exists_commonName member'
  rw [← isShape, ← isShape']
  refine shape_of_name common inTable common' inTable' ?_ ?_
  · rw [isArity, isArity', sameArity]
  · rw [← isName, ← isName', sameName]

/-- The pieces of a head are determined. -/
theorem ShaderTree.Head.functional {tree tree' : ShaderTree} {pieces pieces' : List (List Char)}
    (head : tree.Head pieces) (head' : tree'.Head pieces') (same : tree = tree') :
    pieces = pieces' := by
  cases head with
  | number value =>
      cases head' with
      | number value' => rw [ShaderTree.number.inj same]
      | image | operation | call => cases same
  | image slot =>
      cases head' with
      | image slot' => rw [ShaderTree.image.inj same]
      | number | operation | call => cases same
  | operation op lhs rhs =>
      cases head' with
      | operation op' lhs' rhs' => rw [(ShaderTree.operation.inj same).1]
      | number | image | call => cases same
  | call member unclamped fits =>
      cases head' with
      | call member' unclamped' fits' =>
          obtain ⟨sameName, rfl⟩ := ShaderTree.call.inj same
          have sameArity := fits.symm.trans fits'
          rw [Function.pieces, sameArity,
            Function.shape_of_commonName member member' sameArity sameName, ← Function.pieces]
      | number | image | operation => cases same

theorem texts_eq {trees : List ShaderTree} {texts texts' : List (List Char)}
    (unique : ∀ tree ∈ trees, ∀ {text text'}, Shows tree text → Shows tree text' → text = text')
    (args : List.Forall₂ Shows trees texts) (args' : List.Forall₂ Shows trees texts') :
    texts = texts' := by
  induction args generalizing texts' with
  | nil =>
      cases args'
      rfl
  | @cons tree text trees texts first args ih =>
      cases args' with
      | cons first' args' =>
          rw [unique tree (.head _) first first',
            ih (fun tree member => unique tree (.tail _ member)) args']

/-- A tree has one text. -/
theorem Shows.functional {tree : ShaderTree} {text text' : List Char} (shows : Shows tree text)
    (shows' : Shows tree text') : text = text' := by
  induction tree using ShaderTree.args_induction generalizing text text' with
  | step tree ih =>
      obtain ⟨head, args⟩ := shows
      obtain ⟨head', args'⟩ := shows'
      rw [head.functional head' rfl, texts_eq ih args args']

/-! ## Shader texts of trees -/

namespace Expr

theorem collect_eq_ok {α : Type} {args : List (Except Fault α)} {values : List α}
    (collected : collect args = .ok values) : args = values.map .ok := by
  induction args generalizing values with
  | nil =>
      cases collected
      rfl
  | cons first more ih =>
      cases first with
      | error fault => cases collected
      | ok value =>
          rw [collect] at collected
          cases rest : collect more with
          | error fault => simp [rest] at collected
          | ok later =>
              rw [rest] at collected
              cases collected
              rw [ih rest, List.map_cons]

theorem callShader_eq_ok {name : String} {args : List (Except Fault String)} {span : Span}
    {text : String} (written : callShader name args span = .ok text) :
    ∃ function texts, Function.find? name args.length = some function ∧ args = texts.map .ok ∧
      function.shape.render? texts = some text := by
  unfold callShader at written
  cases found : Function.find? name args.length with
  | none => simp [found] at written
  | some function =>
      cases collected : collect args with
      | error fault => simp [found, collected] at written
      | ok texts =>
          cases rendered : function.shape.render? texts with
          | none => simp [found, collected, rendered] at written
          | some whole =>
              simp only [found, collected, rendered, Except.ok.injEq] at written
              subst written
              exact ⟨function, texts, rfl, collect_eq_ok collected, rendered⟩

end Expr

namespace Function

theorem name_of_clampedPower : ∀ function ∈ table, function.shape = .clampedPower →
    function.name = "pow" := by
  decide +kernel

theorem clampedPower_of_name : ∀ function ∈ table, function.arity = 2 →
    Text.sameLetters "pow" function.name = true → function.shape = .clampedPower := by
  decide +kernel

theorem fixed_of_arity {function : Function} (member : function ∈ table)
    (isZero : function.arity = 0) : ∃ whole, function.shape = .fixed whole := by
  have table : ∀ function ∈ table, function.arity = 0 →
      (function.shape matches .fixed _) = true := by
    decide +kernel
  have isFixed := table function member isZero
  cases shape : function.shape <;> simp_all

theorem of_find? {name : String} {arity : Nat} {function : Function}
    (found : find? name arity = some function) :
    function ∈ table ∧ function.arity = arity ∧ Text.lower function.name = Text.lower name := by
  have same := List.find?_some found
  simp only [Bool.and_eq_true, beq_iff_eq, Text.sameLetters] at same
  exact ⟨List.mem_of_find?_eq_some found, same⟩

end Function

namespace ShaderTree

variable {name : String} {trees : List ShaderTree} {texts : List String} {function : Function}
  {text : String}

theorem shows_call (member : function ∈ Function.table) (unclamped : function.shape ≠ .clampedPower)
    (fits : trees.length = function.arity)
    (args : List.Forall₂ (fun tree text => Shows tree text.toList) trees texts)
    (rendered : function.shape.render? texts = some text) :
    Shows (call function.commonName trees) text.toList := by
  have isArity : function.arity = texts.length := by rw [← fits, args.length_eq]
  have nonempty : texts = [] → ∃ whole, function.shape = .fixed whole := by
    rintro rfl
    exact Function.fixed_of_arity member isArity
  rw [← Shape.weave_pieces rendered nonempty, ← isArity, ← Function.pieces]
  exact .intro (.call member unclamped fits) (List.forall₂_map_right_iff.mpr args)

theorem shows_number (value : Binary32) : Shows (number value.shader) value.shader.toList :=
  .intro (.number value) .nil

theorem shows_operation (op : Operator) {lhs rhs : ShaderTree} {left right : String}
    (isLeft : Shows lhs left.toList) (isRight : Shows rhs right.toList) :
    Shows (operation op lhs rhs) (Expr.operationShader op left right).toList := by
  rw [← weave_operator]
  exact .intro (.operation op lhs rhs) (.cons isLeft (.cons isRight .nil))

/-- The greatest of two arguments, which a power takes of its base and zero. -/
theorem shows_max {first second : ShaderTree} {firstText secondText : String}
    (isFirst : Shows first firstText.toList) (isSecond : Shows second secondText.toList) :
    Shows (call "max" [first, second])
      ("max(" ++ firstText ++ "," ++ secondText ++ ")").toList := by
  have common : (Function.binary "max" (.call "max") .maximum).commonName = "max" := by
    decide +kernel
  have member : Function.binary "max" (.call "max") .maximum ∈ Function.table := by
    simp [Function.table]
  rw [← common]
  refine shows_call member nofun rfl (.cons isFirst (.cons isSecond .nil)) ?_
  simp [Function.binary, Shape.render?, String.append_assoc]

/-- The text of a call shows the call. -/
theorem shows_ofCall (found : Function.find? name trees.length = some function)
    (args : List.Forall₂ (fun tree text => Shows tree text.toList) trees texts)
    (rendered : function.shape.render? texts = some text) :
    Shows (ofCall name trees) text.toList := by
  obtain ⟨member, isArity, letters⟩ := Function.of_find? found
  by_cases clamped : function.shape = .clampedPower
  · -- the text is that of an operation, with the greatest of base and zero on its left
    rw [Function.name_of_clampedPower function member clamped] at letters
    have isPower : Text.sameLetters "pow" name = true := by simpa [Text.sameLetters] using letters
    rw [clamped] at rendered
    obtain ⟨base, exponent, rfl⟩ : ∃ base exponent, texts = [base, exponent] := by
      unfold Shape.render? at rendered
      split at rendered <;> simp_all
    cases rendered
    obtain _ | ⟨isBase, _ | ⟨isExponent, _ | _⟩⟩ := args
    have shows := shows_operation .pow (shows_max isBase (shows_number Binary32.zero)) isExponent
    simpa [ofCall, isPower, Expr.operationShader, String.append_assoc] using shows
  · have isCall : ofCall name trees = call function.commonName trees := by
      unfold ofCall
      split
      · rename_i base exponent isPower
        have isPower : Text.sameLetters "pow" function.name = true := by
          simpa [Text.sameLetters, letters] using isPower
        exact absurd (Function.clampedPower_of_name function member isArity isPower) clamped
      · rw [found]
    rw [isCall]
    exact shows_call member clamped isArity.symm args rendered

end ShaderTree

namespace Expr

theorem shows_call {name : String} {span : Span} {text : String} (exprs : List Expr)
    (shown : ∀ expr ∈ exprs, ∀ text, expr.shader = .ok text → Shows expr.shaderTree text.toList)
    (written : callShader name (exprs.map shader) span = .ok text) :
    Shows (.ofCall name (exprs.map shaderTree)) text.toList := by
  obtain ⟨function, texts, found, isTexts, rendered⟩ := callShader_eq_ok written
  refine ShaderTree.shows_ofCall (by simpa using found) ?_ rendered
  clear written found rendered
  induction exprs generalizing texts with
  | nil =>
      obtain rfl : texts = [] := by simpa using isTexts.symm
      exact .nil
  | cons expr exprs ih =>
      cases texts with
      | nil => cases isTexts
      | cons first texts =>
          obtain ⟨isFirst, isTexts⟩ := List.cons.inj isTexts
          exact .cons (shown expr (.head _) first isFirst)
            (ih (fun expr member => shown expr (.tail _ member)) texts isTexts)

/-- The shader text of a tree shows what it is said to show. -/
theorem shows_shaderTree {expr : Expr} {text : String} (written : expr.shader = .ok text) :
    Shows expr.shaderTree text.toList := by
  induction expr generalizing text with
  | number value =>
      cases written
      exact ShaderTree.shows_number value
  | image slot =>
      cases written
      rw [toList_imageShader]
      exact .intro (.image slot) .nil
  | binary lhs op rhs ih ih' =>
      rw [shader] at written
      cases isLeft : lhs.shader with
      | error fault => simp [isLeft] at written
      | ok left =>
          cases isRight : rhs.shader with
          | error fault => simp [isLeft, isRight] at written
          | ok right =>
              simp only [isLeft, isRight, Except.ok.injEq] at written
              subst written
              exact ShaderTree.shows_operation op (ih isLeft) (ih' isRight)
  | intrinsic name span => exact shows_call [] (by simp) written
  | unary name arg span ih =>
      exact shows_call [arg] (List.forall_mem_singleton.mpr fun _ => ih) written
  | binaryCall name first second span ih ih' =>
      exact shows_call [first, second] (by simpa using ⟨@ih, @ih'⟩) written
  | tertiary name first second third span ih ih' ih'' =>
      exact shows_call [first, second, third] (by simpa using ⟨@ih, @ih', @ih''⟩) written

/-- Two trees have the same shader text if and only if they agree in what it shows. -/
theorem shader_eq_iff {expr expr' : Expr} {text text' : String} (written : expr.shader = .ok text)
    (written' : expr'.shader = .ok text') : text = text' ↔ expr.shaderTree = expr'.shaderTree := by
  have shows := shows_shaderTree written
  have shows' := shows_shaderTree written'
  constructor
  · rintro rfl
    have same : text.toList ++ [] = text.toList ++ [] := rfl
    exact (expr.shaderTree.readable shows shows' same).1
  · intro same
    rw [← same] at shows'
    exact String.toList_inj.mp (shows.functional shows')

theorem shader_eq_iff_power :
    let power : Expr := .binaryCall "pow" (.image 0) (.unary "r" (.image 1) ⟨7, 9⟩) ⟨0, 4⟩
    let greatest : Expr := .binaryCall "MAX" (.image 0) (.number .zero) ⟨0, 4⟩
    let operation : Expr := .binary greatest .pow (.unary "x" (.image 1) ⟨12, 14⟩)
    let text := "powEx(max(GetTexture0(coord),f4(0.0)),(GetTexture1(coord)).rrrr)"
    power.shader = .ok text ∧ operation.shader = .ok text ∧
      power.shaderTree = operation.shaderTree := by
  intro power greatest operation text
  have written : power.shader = .ok text := by decide +kernel
  have written' : operation.shader = .ok text := by decide +kernel
  exact ⟨written, written', (shader_eq_iff written written').mp rfl⟩

end Expr

end ImageFormula
