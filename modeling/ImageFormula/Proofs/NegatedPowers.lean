import ImageFormula.Proofs.Renaming

/-!
# Signs and powers

A power takes its base before a sign does, but only where its exponent has no sign itself: `-x^y` is
the negation of a power if `y` is a primary, and the power of a negation if signs stand before the
primary. The trees of `x` and `y` are those that they have on their own, moved to their places. The
main statement is `Limits.compile_negated_power`; `Limits.compile_signed_exponent` is a formula
whose sign does not apply to its power.
-/

namespace ImageFormula

/-! ## Moved trees -/

def Span.moved (offset : Nat) (span : Span) : Span := ⟨span.start + offset, span.stop + offset⟩

namespace Expr

/-- The tree of a formula that stands `offset` characters further on. -/
def moved (offset : Nat) : Expr → Expr
  | number value => number value
  | image slot => image slot
  | binary lhs op rhs => binary (lhs.moved offset) op (rhs.moved offset)
  | intrinsic name span => intrinsic name (span.moved offset)
  | unary name arg span => unary name (arg.moved offset) (span.moved offset)
  | binaryCall name first second span =>
    binaryCall name (first.moved offset) (second.moved offset) (span.moved offset)
  | tertiary name first second third span =>
    tertiary name (first.moved offset) (second.moved offset) (third.moved offset)
      (span.moved offset)

end Expr

/-- The token `offset` characters further on. -/
def Token.moved (offset : Nat) (token : Token) : Token :=
  ⟨match token.kind with
    | .value expr => .value (expr.moved offset)
    | kind => kind, token.span.moved offset, token.depth⟩

theorem Token.kind_moved {offset : Nat} {token : Token} {kind : TokenKind}
    (isKind : token.kind = kind) (noValue : ∀ expr, kind ≠ .value expr) :
    (token.moved offset).kind = kind := by
  subst isKind
  unfold moved
  split
  · exact absurd ‹_› (noValue _)
  · rfl

@[simp] theorem Token.span_moved (offset : Nat) (token : Token) :
    (token.moved offset).span = token.span.moved offset := rfl

theorem Token.value_moved {offset : Nat} {token : Token} {expr : Expr}
    (isValue : token.kind = .value expr) :
    (token.moved offset).kind = .value (expr.moved offset) := by
  unfold moved
  rw [isValue]

/-- A phrase has its tree wherever it stands. -/
theorem Derives.moved (offset : Nat) {level : Level} {tokens : List Token} {expr : Expr}
    (derives : Derives level tokens expr) :
    Derives level (tokens.map (Token.moved offset)) (expr.moved offset) := by
  induction derives with
  | value isValue => exact .value (Token.value_moved isValue)
  | brackets opens closes body ih =>
      simpa using Derives.brackets (Token.kind_moved opens nofun) (Token.kind_moved closes nofun) ih
  | intrinsic opens closes =>
      exact .intrinsic (Token.kind_moved opens nofun) (Token.kind_moved closes nofun)
  | unary opens closes body ih =>
      simpa [Expr.moved] using Derives.unary (Token.kind_moved opens nofun)
        (Token.kind_moved closes nofun) ih
  | binaryCall opens separates closes body body' ih ih' =>
      simpa [Expr.moved] using Derives.binaryCall (Token.kind_moved opens nofun)
        (Token.kind_moved separates nofun) (Token.kind_moved closes nofun) ih ih'
  | tertiary opens separates separates' closes body body' body'' ih ih' ih'' =>
      simpa [Expr.moved] using Derives.tertiary (Token.kind_moved opens nofun)
        (Token.kind_moved separates nofun) (Token.kind_moved separates' nofun)
        (Token.kind_moved closes nofun) ih ih' ih''
  | run _ ih => exact .run ih
  | power raises _ _ ih ih' =>
      simpa [Expr.moved] using Derives.power (Token.kind_moved raises nofun) ih ih'
  | unsigned _ ih => exact .unsigned ih
  | plus signs _ ih => exact .plus (Token.kind_moved signs nofun) ih
  | minus signs _ ih => exact .minus (Token.kind_moved signs nofun) ih
  | chain _ ih => exact .chain ih
  | chainPower raises signs isSign _ _ ih ih' =>
      simpa [Expr.moved] using Derives.chainPower (Token.kind_moved raises nofun)
        (Token.kind_moved signs nofun) isSign ih ih'
  | product _ ih => exact .product ih
  | times operates tier _ _ ih ih' =>
      simpa [Expr.moved] using Derives.times (Token.kind_moved operates nofun) tier ih ih'
  | sum _ ih => exact .sum ih
  | add operates tier _ _ ih ih' =>
      simpa [Expr.moved] using Derives.add (Token.kind_moved operates nofun) tier ih ih'

/-! ## Moved texts -/

def Lexeme.moved (offset : Nat) (lexeme : Lexeme) : Lexeme :=
  ⟨lexeme.kind, lexeme.span.moved offset⟩

theorem Lexeme.moved_moved (offset offset' : Nat) :
    Lexeme.moved offset' ∘ Lexeme.moved offset = Lexeme.moved (offset + offset') := by
  funext lexeme
  simp [moved, Span.moved, Nat.add_assoc]

/-- The values of words are leaves, which have no place in a tree. -/
theorem Lexeme.Reads.moved {bound : Nat} {lexeme : Lexeme} {token : Token}
    (reads : Reads bound lexeme token) (offset : Nat) :
    Reads bound (lexeme.moved offset) (token.moved offset) := by
  obtain ⟨kind, isKind, rfl⟩ := reads
  refine ⟨kind, isKind, ?_⟩
  cases isLexeme : lexeme.kind with
  | word text =>
      rw [isLexeme] at isKind
      obtain ⟨expr, value, rfl⟩ := Option.map_eq_some_iff.mp isKind
      rcases Scope.image_or_number_of_wordValue? value with ⟨slot, rfl, -⟩ | ⟨number, rfl⟩ <;> rfl
  | operator op | bracketOpen | bracketClose | separator | functionStart name =>
      rw [isLexeme] at isKind
      obtain rfl := Option.some.inj isKind
      rfl

theorem Lexeme.reads_moved {bound : Nat} {lexemes : List Lexeme} {tokens : List Token}
    (reads : List.Forall₂ (Reads bound) lexemes tokens) (offset : Nat) :
    List.Forall₂ (Reads bound) (lexemes.map (Lexeme.moved offset))
      (tokens.map (Token.moved offset)) := by
  rw [List.forall₂_map_left_iff, List.forall₂_map_right_iff]
  exact reads.imp fun _ _ first => first.moved offset

namespace Piece

theorem place_add (position offset : Nat) (pieces : List Piece) :
    place (position + offset) pieces = (place position pieces).map (Lexeme.moved offset) := by
  induction pieces generalizing position with
  | nil => rfl
  | cons piece pieces ih =>
      have stop : position + offset + piece.chars.length =
          position + piece.chars.length + offset := by
        omega
      rw [place, place, stop, ih]
      cases piece.kind? with
      | none => rfl
      | some kind => rfl

theorem place_append (position : Nat) (left right : List Piece) :
    place position (left ++ right) =
      place position left ++ place (position + (text left).length) right := by
  induction left generalizing position with
  | nil => rfl
  | cons piece left ih =>
      have stop : position + (text (piece :: left)).length =
          position + piece.chars.length + (text left).length := by
        rw [text_cons, List.length_append, Nat.add_assoc]
      rw [List.cons_append, place, place, ih, stop]
      cases piece.kind? with
      | none => rfl
      | some kind => rfl

end Piece

/-- An operator that is no sign ends whatever stands before it. -/
theorem Cut.operation {left right : List Piece} {op : Operator} (noSign : op.isSign = false)
    (cut : Cut left) (cut' : Cut right) : Cut (left ++ .operator op :: right) := by
  induction cut with
  | nil => exact .cons trivial trivial cut'
  | @cons piece pieces valid apart _ ih =>
      refine .cons valid ?_ ih
      cases piece with
      | word text =>
          cases pieces with
          | cons next pieces => exact apart
          | nil =>
              intro isSign
              rw [noSign] at isSign
              cases isSign
      | blank _ | operator _ | separator | bracketOpen | bracketClose | call _ => trivial

namespace Lexeme

/-- The lexemes of a text after an operator. -/
theorem cut_operator (op : Operator) {text rest : String}
    (isText : text.toList = op.symbol :: rest.toList) :
    cut text = ⟨.operator op, ⟨0, 1⟩⟩ :: (cut rest).map (moved 1) := by
  obtain ⟨pieces, isCut, isRest⟩ := exists_pieces rest.toList
  have whole : Cut (.operator op :: pieces) := .cons trivial trivial isCut
  unfold cut
  rw [isText, ← isRest, cutFrom_pieces isCut, ← Piece.place_add]
  exact cutFrom_pieces whole 0

/-- The lexemes of two texts with an operator between them. -/
theorem cut_operation (op : Operator) (noSign : op.isSign = false) {text left right : String}
    (isText : text.toList = left.toList ++ op.symbol :: right.toList) :
    cut text = cut left ++ ⟨.operator op, ⟨left.length, left.length + 1⟩⟩ ::
        (cut right).map (moved (left.length + 1)) := by
  obtain ⟨pieces, isCut, isLeft⟩ := exists_pieces left.toList
  obtain ⟨pieces', isCut', isRight⟩ := exists_pieces right.toList
  have whole : Piece.text (pieces ++ .operator op :: pieces') = text.toList := by
    rw [Piece.text_append, Piece.text_cons, isLeft, isRight, isText]
    rfl
  have length : left.length = 0 + (Piece.text pieces).length := by
    rw [isLeft, String.length_toList, Nat.zero_add]
  unfold cut
  rw [← whole, cutFrom_pieces (isCut.operation noSign isCut'), Piece.place_append, ← isLeft,
    ← isRight, cutFrom_pieces isCut, cutFrom_pieces isCut', ← Piece.place_add, length,
    Nat.zero_add (_ + 1)]
  rfl

/-- The lexemes of a power with a sign before it. -/
theorem cut_negated_power (x y : String) :
    cut ("-" ++ x ++ "^" ++ y) =
      ⟨.operator .sub, ⟨0, 1⟩⟩ :: ((cut x).map (moved 1) ++
        ⟨.operator .pow, ⟨x.length + 1, x.length + 2⟩⟩ :: (cut y).map (moved (x.length + 2))) := by
  have isPower : (x ++ "^" ++ y).toList = x.toList ++ '^' :: y.toList := by simp
  have isWhole : ("-" ++ x ++ "^" ++ y).toList = '-' :: (x ++ "^" ++ y).toList := by simp
  rw [cut_operator .sub isWhole, cut_operation .pow rfl isPower, List.map_append, List.map_cons,
    List.map_map, moved_moved]
  rfl

/-- The tokens of a power with a sign before it. -/
theorem reads_negated_power {bound : Nat} {x y : String} {left right : List Token}
    (reads : List.Forall₂ (Reads bound) (cut x) left)
    (reads' : List.Forall₂ (Reads bound) (cut y) right) :
    ∃ minus caret : Token, minus.kind = .operator .sub ∧ caret.kind = .operator .pow ∧
      List.Forall₂ (Reads bound) (cut ("-" ++ x ++ "^" ++ y))
        (minus :: (left.map (Token.moved 1) ++
          caret :: right.map (Token.moved (x.length + 2)))) := by
  refine ⟨.ofKind (.operator .sub) ⟨0, 1⟩,
    .ofKind (.operator .pow) ⟨x.length + 1, x.length + 2⟩, rfl, rfl, ?_⟩
  rw [cut_negated_power]
  refine .cons ⟨_, rfl, rfl⟩ (List.rel_append (reads_moved reads 1) (.cons ⟨_, rfl, rfl⟩ ?_))
  exact reads_moved reads' (x.length + 2)

end Lexeme

/-! ## Signs before a power -/

/-- Whether a token is a plus or a minus. -/
def Token.IsSign (token : Token) : Prop :=
  ∃ op : Operator, token.kind = .operator op ∧ op.isSign = true

theorem Token.IsSign.moved {token : Token} (isSign : token.IsSign) (offset : Nat) :
    (token.moved offset).IsSign := by
  obtain ⟨op, isOperator, isSign⟩ := isSign
  exact ⟨op, kind_moved isOperator nofun, isSign⟩

theorem Derives.signs {signs tokens : List Token} {expr : Expr}
    (areSigns : ∀ sign ∈ signs, sign.IsSign) (signed : Derives .signed tokens expr) :
    ∃ expr', Derives .signed (signs ++ tokens) expr' := by
  induction signs with
  | nil => exact ⟨expr, signed⟩
  | cons sign signs ih =>
      rw [List.forall_mem_cons] at areSigns
      obtain ⟨⟨op, isOperator, isSign⟩, areSigns⟩ := areSigns
      obtain ⟨expr', signed'⟩ := ih areSigns
      cases op with
      | add => exact ⟨expr', .plus isOperator signed'⟩
      | sub => exact ⟨expr'.negate, .minus isOperator signed'⟩
      | mul | div | pow => cases isSign

/-- The tree of a sign before a power. The power comes first only if its exponent is a primary:
where that starts with a sign, the base and its own sign are a phrase of their own. -/
theorem derives_negated_power {minus caret : Token} {left signs right : List Token}
    {base inner exponent : Expr} (negates : minus.kind = .operator .sub)
    (raises : caret.kind = .operator .pow) (isBase : Derives .primary left base)
    (areSigns : ∀ sign ∈ signs, sign.IsSign) (isInner : Derives .primary right inner)
    (isExponent : Derives .sum (signs ++ right) exponent) :
    Derives .sum (minus :: (left ++ caret :: (signs ++ right)))
      (if signs = [] then (Expr.binary base .pow exponent).negate
        else .binary base.negate .pow exponent) := by
  cases signs with
  | nil =>
      obtain rfl := isExponent.unique (.sum (.product (.chain (.unsigned (.run isInner)))))
      have power := Derives.power raises (.run isBase) isInner
      rw [if_pos rfl]
      exact .sum (.product (.chain (.minus negates (.unsigned power))))
  | cons sign signs =>
      obtain ⟨found, signed⟩ := Derives.signs areSigns (.unsigned (.run isInner))
      obtain rfl := isExponent.unique (.sum (.product (.chain signed)))
      obtain ⟨op, isOperator, isSign⟩ := areSigns sign List.mem_cons_self
      have negated := Derives.minus negates (.unsigned (.run isBase))
      rw [if_neg (List.cons_ne_nil _ _), ← List.cons_append]
      exact .sum (.product (.chainPower raises isOperator isSign (.chain negated) signed))

namespace Limits

/-- A text that reads as the given signs and a primary after them. -/
def SignedPrimary (limits : Limits) (signs : List Operator) (text : String) : Prop :=
  (∀ op ∈ signs, op.isSign = true) ∧ ∃ marks tokens after tree,
    limits.scope.tokens text = (.ok (marks ++ tokens), after) ∧
    marks.map Token.kind = signs.map .operator ∧ Derives .primary tokens tree

/-- The tokens of signs and a primary, with the tree that they have together. -/
theorem SignedPrimary.derives {limits : Limits} {signs : List Operator} {text : String}
    {equation : Equation} (signed : limits.SignedPrimary signs text)
    (compiled : limits.compile text = .ok equation) :
    ∃ marks tokens inner,
      List.Forall₂ (Lexeme.Reads limits.slots) (Lexeme.cut text) (marks ++ tokens) ∧
      (∀ mark ∈ marks, mark.IsSign) ∧ (marks = [] ↔ signs = []) ∧
      Derives .primary tokens inner ∧ Derives .sum (marks ++ tokens) equation.root := by
  obtain ⟨areSigns, marks, tokens, after, inner, read, isSigns, isInner⟩ := signed
  obtain ⟨-, reads, -⟩ := Scope.tokens_eq_ok_iff.mp read
  obtain ⟨derives, -⟩ := (compile_eq_ok_iff_of_reads reads).mp compiled
  refine ⟨marks, tokens, inner, reads, ?_, ?_, isInner, derives⟩
  · intro mark member
    have isKind : mark.kind ∈ signs.map TokenKind.operator := by
      rw [← isSigns]
      exact List.mem_map_of_mem member
    obtain ⟨op, inSigns, same⟩ := List.mem_map.mp isKind
    exact ⟨op, same.symm, areSigns op inSigns⟩
  · rw [← List.map_eq_nil_iff (f := Token.kind), isSigns, List.map_eq_nil_iff]

/-- A sign before a power applies to the power if its exponent is a primary, and to the base alone
if the exponent has signs of its own. -/
theorem compile_negated_power {limits : Limits} {x y : String} {signs : List Operator}
    {base exponent : Equation} (primary : limits.SignedPrimary [] x)
    (signed : limits.SignedPrimary signs y) (isBase : limits.compile x = .ok base)
    (isExponent : limits.compile y = .ok exponent) (equation : Equation) :
    limits.compile ("-" ++ x ++ "^" ++ y) = .ok equation ↔
      equation.root =
        (let first := base.root.moved 1
        let second := exponent.root.moved (x.length + 2)
        if signs = [] then (Expr.binary first .pow second).negate
        else .binary first.negate .pow second) ∧
      equation.root.height ≤ limits.depth ∧
      equation.usage = Usage.empty.recordAll equation.root.images := by
  obtain ⟨noMarks, left, root, reads, -, isEmpty, isRoot, isBase⟩ := primary.derives isBase
  obtain ⟨marks, right, inner, reads', areSigns, unmarked, isInner, isExponent⟩ :=
    signed.derives isExponent
  obtain rfl := isEmpty.mpr rfl
  rw [List.nil_append] at reads isBase
  obtain rfl := isBase.unique (.sum (.product (.chain (.unsigned (.run isRoot)))))
  obtain ⟨minus, caret, negates, raises, whole⟩ := Lexeme.reads_negated_power reads reads'
  have areMoved : ∀ mark ∈ marks.map (Token.moved (x.length + 2)), mark.IsSign := by
    intro mark member
    obtain ⟨mark, inMarks, rfl⟩ := List.mem_map.mp member
    exact (areSigns mark inMarks).moved _
  have isMoved := isExponent.moved (x.length + 2)
  rw [List.map_append] at whole isMoved
  have derives := derives_negated_power negates raises (isRoot.moved 1) areMoved
    (isInner.moved (x.length + 2)) isMoved
  simp only [List.map_eq_nil_iff, unmarked] at derives
  rw [compile_eq_ok_iff_of_reads whole]
  constructor
  · rintro ⟨derives', low, isUsage⟩
    refine ⟨derives'.unique derives, low.resolve_right ?_, isUsage⟩
    simp only [List.length_cons, List.length_append]
    omega
  · rintro ⟨same, low, isUsage⟩
    refine ⟨?_, .inl low, isUsage⟩
    rw [same]
    exact derives

/-- In `-max(I0,I1)^-+I2` the first sign applies to the call alone. -/
theorem compile_negated_power_max :
    let root : Expr :=
      .binary (Expr.binaryCall "max" (.image 0) (.image 1) ⟨1, 5⟩).negate .pow (Expr.image 2).negate
    default.SignedPrimary [] "max(I0,I1)" ∧ default.SignedPrimary [.sub, .add] "-+I2" ∧
      default.compile ("-" ++ "max(I0,I1)" ++ "^" ++ "-+I2") =
        .ok ⟨root, Usage.empty.recordAll root.images⟩ := by
  intro root
  have primary : default.SignedPrimary [] "max(I0,I1)" :=
    ⟨by decide, [], [.ofKind (.functionStart "max") ⟨0, 4⟩, .ofKind (.value (.image 0)) ⟨4, 6⟩,
      .ofKind .separator ⟨6, 7⟩, .ofKind (.value (.image 1)) ⟨7, 9⟩,
      .ofKind .bracketClose ⟨9, 10⟩], .images 16 ⟨some 0, some 0, some 1, [0, 1]⟩, _,
      by decide +kernel, rfl, .binaryCall rfl rfl rfl (.ofValue rfl) (.ofValue rfl)⟩
  have signed : default.SignedPrimary [.sub, .add] "-+I2" :=
    ⟨by decide, [.ofKind (.operator .sub) ⟨0, 1⟩, .ofKind (.operator .add) ⟨1, 2⟩],
      [.ofKind (.value (.image 2)) ⟨2, 4⟩], .images 16 ⟨some 2, some 2, some 2, [2]⟩, _,
      by decide +kernel, rfl, .value rfl⟩
  have isBase : default.compile "max(I0,I1)" =
      .ok ⟨.binaryCall "max" (.image 0) (.image 1) ⟨0, 4⟩, ⟨some 0, some 0, some 1, [0, 1]⟩⟩ := by
    decide +kernel
  have isExponent : default.compile "-+I2" =
      .ok ⟨(Expr.image 2).negate, ⟨some 2, some 2, some 2, [2]⟩⟩ := by
    decide +kernel
  refine ⟨primary, signed, ?_⟩
  exact (compile_negated_power primary signed isBase isExponent _).mpr ⟨rfl, by decide, rfl⟩

/-- In `-I0^-I1` the sign of the base is not that of the power. -/
theorem compile_signed_exponent :
    let base : Equation := ⟨.image 0, ⟨some 0, some 0, some 0, [0]⟩⟩
    let exponent : Equation := ⟨(Expr.image 1).negate, ⟨some 1, some 1, some 1, [1]⟩⟩
    default.compile "I0" = .ok base ∧ default.compile "-I1" = .ok exponent ∧
      default.compile "-I0^-I1" = .ok ⟨.binary base.root.negate .pow exponent.root,
        ⟨some 0, some 0, some 1, [0, 1]⟩⟩ ∧
      Expr.binary base.root.negate .pow exponent.root ≠
        (Expr.binary base.root .pow exponent.root).negate := by
  decide +kernel

end Limits

end ImageFormula
