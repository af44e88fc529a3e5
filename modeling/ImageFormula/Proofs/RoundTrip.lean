import ImageFormula.Proofs.Literals

/-!
# Formatting and compiling again

A formatted formula has brackets around every operation, so each of its parts is a primary of the
grammar. The main statement is `Limits.compile_format`: what compiles compiles again after
formatting, within the same limits, to the same tree up to the places of calls and to what literals
are read back as (`Rereads`).
-/

namespace ImageFormula

/-- `Rereads expr expr'`: the trees differ in the places of calls, and in the numbers with a
literal, where `expr'` has what the literal is read as. The factor of a negation is kept. -/
inductive Rereads : Expr → Expr → Prop
  | literal {value value' : Binary32} {text : String} (isLiteral : value.literal? = some text)
      (reads : ReadsAs text value') : Rereads (.number value) (.number value')
  | number {value : Binary32} (notFinite : value.literal? = none) :
      Rereads (.number value) (.number value)
  | image (slot : Nat) : Rereads (.image slot) (.image slot)
  | negation {x x' : Expr} (rereads : Rereads x x') : Rereads x.negate x'.negate
  | binary {lhs lhs' rhs rhs' : Expr} (op : Operator) (left : Rereads lhs lhs')
      (right : Rereads rhs rhs') : Rereads (.binary lhs op rhs) (.binary lhs' op rhs')
  | intrinsic (name : String) (span span' : Span) :
      Rereads (.intrinsic name span) (.intrinsic name span')
  | unary {arg arg' : Expr} (name : String) (span span' : Span) (argument : Rereads arg arg') :
      Rereads (.unary name arg span) (.unary name arg' span')
  | binaryCall {a a' b b' : Expr} (name : String) (span span' : Span) (first : Rereads a a')
      (second : Rereads b b') : Rereads (.binaryCall name a b span) (.binaryCall name a' b' span')
  | tertiary {a a' b b' c c' : Expr} (name : String) (span span' : Span) (first : Rereads a a')
      (second : Rereads b b') (third : Rereads c c') :
      Rereads (.tertiary name a b c span) (.tertiary name a' b' c' span')

namespace Rereads

variable {expr expr' : Expr}

theorem height (rereads : Rereads expr expr') : expr'.height = expr.height := by
  induction rereads <;> simp_all [Expr.height, Expr.height_negate]

theorem images (rereads : Rereads expr expr') : expr'.images = expr.images := by
  induction rereads <;> simp_all [Expr.images, Expr.negate]

end Rereads

/-! ## The trees of formulas -/

/-- A name of a call: a word in lower case. -/
structure IsName (name : String) : Prop where
  isWord : IsWord name.toList
  lower : Text.lower name = name

/-- The trees that formulas have: no number but the factor of a negation has a sign, slots are below
the bound, and names are words. -/
inductive FormulaTree (bound : Nat) : Expr → Prop
  | number {value : Binary32} (unsigned : value.IsUnsigned) : FormulaTree bound (.number value)
  | image {slot : Nat} (below : slot < bound) : FormulaTree bound (.image slot)
  | negation {x : Expr} (operand : FormulaTree bound x) : FormulaTree bound x.negate
  | binary {lhs rhs : Expr} (op : Operator) (left : FormulaTree bound lhs)
      (right : FormulaTree bound rhs) : FormulaTree bound (.binary lhs op rhs)
  | intrinsic {name : String} (span : Span) (isName : IsName name) :
      FormulaTree bound (.intrinsic name span)
  | unary {name : String} {arg : Expr} (span : Span) (isName : IsName name)
      (argument : FormulaTree bound arg) : FormulaTree bound (.unary name arg span)
  | binaryCall {name : String} {a b : Expr} (span : Span) (isName : IsName name)
      (first : FormulaTree bound a) (second : FormulaTree bound b) :
      FormulaTree bound (.binaryCall name a b span)
  | tertiary {name : String} {a b c : Expr} (span : Span) (isName : IsName name)
      (first : FormulaTree bound a) (second : FormulaTree bound b) (third : FormulaTree bound c) :
      FormulaTree bound (.tertiary name a b c span)

/-- The tokens that formulas have. -/
def FormulaToken (bound : Nat) : TokenKind → Prop
  | .value expr => FormulaTree bound expr
  | .functionStart name => IsWord name.toList
  | _ => True

theorem IsName.lower_of_isWord {name : String} (isWord : IsWord name.toList) :
    IsName (Text.lower name) :=
  ⟨isWord.lower, Text.lower_lower name⟩

/-- The tree of such tokens is such a tree. -/
theorem Derives.formulaTree {bound : Nat} {level : Level} {tokens : List Token} {expr : Expr}
    (derives : Derives level tokens expr)
    (formula : ∀ token ∈ tokens, FormulaToken bound token.kind) : FormulaTree bound expr := by
  induction derives with
  | @value token expr isValue => simpa [FormulaToken, isValue] using formula token
  | brackets _ _ _ ih => exact ih fun t member => formula t (by simp [member])
  | @intrinsic opener _ name opens _ =>
      have isWord : IsWord name.toList := by simpa [FormulaToken, opens] using formula opener
      exact .intrinsic _ (.lower_of_isWord isWord)
  | @unary opener _ name _ _ opens _ _ ih =>
      have isWord : IsWord name.toList := by simpa [FormulaToken, opens] using formula opener
      exact .unary _ (.lower_of_isWord isWord) (ih fun t member => formula t (by simp [member]))
  | @binaryCall opener _ _ name _ _ _ _ opens _ _ _ _ ih ih' =>
      have isWord : IsWord name.toList := by simpa [FormulaToken, opens] using formula opener
      exact .binaryCall _ (.lower_of_isWord isWord)
        (ih fun t member => formula t (by simp [member]))
        (ih' fun t member => formula t (by simp [member]))
  | @tertiary opener _ _ _ name _ _ _ _ _ _ opens _ _ _ _ _ _ ih ih' ih'' =>
      have isWord : IsWord name.toList := by simpa [FormulaToken, opens] using formula opener
      exact .tertiary _ (.lower_of_isWord isWord)
        (ih fun t member => formula t (by simp [member]))
        (ih' fun t member => formula t (by simp [member]))
        (ih'' fun t member => formula t (by simp [member]))
  | run _ ih | unsigned _ ih | chain _ ih | product _ ih | sum _ ih => exact ih formula
  | plus _ _ ih => exact ih fun t member => formula t (by simp [member])
  | minus _ _ ih => exact .negation (ih fun t member => formula t (by simp [member]))
  | power _ _ _ ih ih' | times _ _ _ _ ih ih' | add _ _ _ _ ih ih' | chainPower _ _ _ _ _ ih ih' =>
      exact .binary _ (ih fun t member => formula t (List.mem_append_left _ member))
        (ih' fun t member => formula t (List.mem_append_right _ (.tail _ member)))

/-- The tokens of a text are such tokens. -/
theorem formulaToken_of_reads {bound : Nat} {text : String} {tokens : List Token}
    (reads : List.Forall₂ (Lexeme.Reads bound) (Lexeme.cut text) tokens) :
    ∀ token ∈ tokens, FormulaToken bound token.kind := by
  intro token member
  obtain ⟨lexeme, inCut, kind, isKind, rfl⟩ := Lexeme.exists_lexeme reads member
  cases isLexeme : lexeme.kind with
  | word text =>
      rw [isLexeme] at isKind
      obtain ⟨expr, value, rfl⟩ := Option.map_eq_some_iff.mp isKind
      rcases Scope.image_or_number_of_wordValue? value with ⟨slot, rfl, below⟩ | ⟨number, rfl⟩
      · exact FormulaTree.image below
      · exact FormulaTree.number (Scope.isUnsigned_of_wordValue? value)
  | functionStart name =>
      rw [isLexeme] at isKind
      obtain rfl := Option.some.inj isKind
      exact Lexeme.isWord_of_functionStart inCut isLexeme
  | operator op | bracketOpen | bracketClose | separator =>
      rw [isLexeme] at isKind
      obtain rfl := Option.some.inj isKind
      trivial

/-! ## How formulas are written -/

/-- Whether pieces end every word before them. -/
def Closed (pieces : List Piece) : Prop := ∀ text, (Piece.word text).Apart pieces

/-- A text with its pieces and their tokens, to which anything can be added that ends a word. -/
structure Writes (bound : Nat) (text : List Char) (pieces : List Piece) (kinds : List TokenKind) :
    Prop where
  text_eq : Piece.text pieces = text
  cut : ∀ rest, Cut rest → Closed rest → Cut (pieces ++ rest)
  reads : List.Forall₂ (fun kind token => LexemeKind.token? bound kind = some token)
    (pieces.filterMap Piece.kind?) kinds

namespace Writes

variable {bound : Nat} {text left right : List Char} {pieces before after : List Piece}
  {kinds first second : List TokenKind}

theorem valid_space : (Piece.blank ' ').Valid := show Mark.ofChar ' ' = .blank by decide

theorem nothing : Writes bound [] [] [] := ⟨rfl, fun _ cut _ => cut, .nil⟩

theorem word {expr : Expr} (isWord : IsWord text)
    (value : Scope.wordValue? bound (String.ofList text) = some expr) :
    Writes bound text [.word text] [.value expr] := by
  refine ⟨by simp [Piece.chars], fun rest cut closed => .cons isWord (closed text) cut, ?_⟩
  exact .cons (by simp [LexemeKind.token?, value]) .nil

theorem brackets (inside : Writes bound text pieces kinds) :
    Writes bound ('(' :: (text ++ [')'])) (.bracketOpen :: (pieces ++ [.bracketClose]))
      (.bracketOpen :: (kinds ++ [.bracketClose])) := by
  refine ⟨by simp [Piece.chars, inside.text_eq], ?_, ?_⟩
  · intro rest cut closed
    rw [List.cons_append, List.append_assoc]
    refine .cons trivial trivial ?_
    exact inside.cut _ (.cons trivial trivial cut) fun _ => trivial
  · rw [List.filterMap_cons, List.filterMap_append]
    exact .cons rfl (List.rel_append inside.reads (.cons rfl .nil))

theorem negation (operand : Writes bound text pieces kinds) :
    Writes bound ('-' :: text) (.operator .sub :: pieces) (.operator .sub :: kinds) := by
  refine ⟨by simp [Piece.chars, Operator.symbol, operand.text_eq], ?_, .cons rfl operand.reads⟩
  intro rest cut closed
  exact .cons trivial trivial (operand.cut rest cut closed)

theorem operation (op : Operator) (isLeft : Writes bound left before first)
    (isRight : Writes bound right after second) :
    Writes bound (left ++ ' ' :: op.symbol :: ' ' :: right)
      (before ++ .blank ' ' :: .operator op :: .blank ' ' :: after)
      (first ++ .operator op :: second) := by
  refine ⟨by simp [Piece.chars, isLeft.text_eq, isRight.text_eq], ?_, ?_⟩
  · intro rest cut closed
    rw [List.append_assoc]
    refine isLeft.cut _ (.cons valid_space trivial (.cons trivial trivial ?_)) fun _ => trivial
    exact .cons valid_space trivial (isRight.cut rest cut closed)
  · rw [List.filterMap_append]
    exact List.rel_append isLeft.reads (.cons rfl isRight.reads)

theorem separator (isLeft : Writes bound left before first)
    (isRight : Writes bound right after second) :
    Writes bound (left ++ ',' :: ' ' :: right) (before ++ .separator :: .blank ' ' :: after)
      (first ++ .separator :: second) := by
  refine ⟨by simp [Piece.chars, isLeft.text_eq, isRight.text_eq], ?_, ?_⟩
  · intro rest cut closed
    rw [List.append_assoc]
    refine isLeft.cut _ (.cons trivial trivial (.cons valid_space trivial ?_)) fun _ => trivial
    exact isRight.cut rest cut closed
  · rw [List.filterMap_append]
    exact List.rel_append isLeft.reads (.cons rfl isRight.reads)

theorem call {name : String} (isWord : IsWord name.toList)
    (inside : Writes bound text pieces kinds) :
    Writes bound (name.toList ++ '(' :: (text ++ [')']))
      (.call name.toList :: (pieces ++ [.bracketClose]))
      (.functionStart name :: (kinds ++ [.bracketClose])) := by
  refine ⟨by simp [Piece.chars, inside.text_eq], ?_, ?_⟩
  · intro rest cut closed
    rw [List.cons_append, List.append_assoc]
    refine .cons isWord trivial ?_
    exact inside.cut _ (.cons trivial trivial cut) fun _ => trivial
  · rw [List.filterMap_cons, List.filterMap_append]
    refine .cons ?_ (List.rel_append inside.reads (.cons rfl .nil))
    simp [LexemeKind.token?]

end Writes

/-- `expr` is written as a primary, and read back from what is written. -/
def ReadsBack (bound : Nat) (expr : Expr) : Prop :=
  ∃ pieces kinds, Writes bound expr.format.toList pieces kinds ∧
    ∀ tokens : List Token, tokens.map Token.kind = kinds →
      ∃ expr', Derives .primary tokens expr' ∧ Rereads expr expr'

section ReadsBack

variable {bound : Nat}

/-- `expr` is written as one word, and read back from it. -/
def ReadsBackWord (bound : Nat) (expr : Expr) : Prop :=
  ∃ text expr', expr.format = String.ofList text ∧ IsWord text ∧
    Scope.wordValue? bound (String.ofList text) = some expr' ∧ Rereads expr expr'

theorem ReadsBackWord.readsBack {expr : Expr} (word : ReadsBackWord bound expr) :
    ReadsBack bound expr := by
  obtain ⟨text, expr', isText, isWord, value, rereads⟩ := word
  refine ⟨[.word text], [.value expr'], ?_, ?_⟩
  · rw [isText, String.toList_ofList]
    exact .word isWord value
  · intro tokens isKinds
    obtain ⟨token, rfl, isValue⟩ := List.map_eq_singleton_iff.mp isKinds
    exact ⟨expr', .value isValue, rereads⟩

theorem Binary32.eq_infinity {value : Binary32} (unsigned : value.IsUnsigned)
    (notFinite : value.isFinite = false) (isNumber : value.isNaN = false) : value = .infinity := by
  have positive := of_decide_eq_false unsigned.positive
  have large := of_decide_eq_false notFinite
  have small := of_decide_eq_false isNumber
  have bits : value.bits.toNat = 0x7F800000 := by
    unfold code infinityCode at large small
    omega
  have same : value.bits = 0x7F800000 := UInt32.toNat_inj.mp bits
  cases value
  exact congrArg Binary32.mk same

theorem readsBackWord_number {value : Binary32} (unsigned : value.IsUnsigned) :
    ReadsBackWord bound (.number value) := by
  have isFormat : (Expr.number value).format = value.unsignedFormula := by
    simp [Expr.format, Binary32.formula, unsigned.positive]
  cases isFinite : value.isFinite with
  | true =>
      obtain ⟨text, isLiteral, isNumeral⟩ := Binary32.literal?_isNumeral unsigned isFinite
      obtain ⟨value', reads⟩ := isNumeral.readWord
      refine ⟨text, .number value', ?_, isNumeral.isWord, ?_,
        .literal isLiteral (isNumeral.readsAs reads)⟩
      · rw [isFormat, Binary32.unsignedFormula, isLiteral]
      · exact Scope.wordValue?_of_readWord (reads (.images bound .empty) ⟨0, 0⟩)
  | false =>
      -- the values without a literal are written by the names of constants
      have noLiteral : value.literal? = none := by simp [Binary32.literal?, isFinite]
      cases isNaN : value.isNaN with
      | true =>
          obtain rfl := unsigned.nan isNaN
          refine ⟨['n', 'a', 'n'], .number .nan, ?_,
            isWord_of_plain (by simp) (by simp [IsPlainCode]), ?_, .number noLiteral⟩
          · rw [isFormat, Binary32.unsignedFormula, noLiteral, isNaN]
            rfl
          · exact Scope.wordValue?_constant rfl (by decide) (by decide)
      | false =>
          obtain rfl := Binary32.eq_infinity unsigned isFinite isNaN
          refine ⟨['i', 'n', 'f'], .number .infinity, ?_,
            isWord_of_plain (by simp) (by simp [IsPlainCode]), ?_, .number noLiteral⟩
          · rw [isFormat, Binary32.unsignedFormula, noLiteral, isNaN]
            rfl
          · exact Scope.wordValue?_constant rfl (by decide) (by decide)

theorem readsBackWord_image {slot : Nat} (below : slot < bound) :
    ReadsBackWord bound (.image slot) := by
  refine ⟨imageName slot, .image slot, ?_, isWord_imageName slot, Scope.wordValue?_imageName below,
    .image slot⟩
  rw [Expr.format, ← String.toList_inj]
  simp [imageName]

theorem Derives.ofPrimary {tokens : List Token} {expr : Expr}
    (primary : Derives .primary tokens expr) : Derives .sum tokens expr :=
  .sum (.product (.chain (.unsigned (.run primary))))

/-- Two primaries with an operator between them. -/
theorem Derives.operation {left right : List Token} {token : Token} {op : Operator}
    {lhs rhs : Expr} (operates : token.kind = .operator op) (isLeft : Derives .primary left lhs)
    (isRight : Derives .primary right rhs) :
    Derives .sum (left ++ token :: right) (.binary lhs op rhs) := by
  have chain {tokens : List Token} {expr : Expr} (primary : Derives .primary tokens expr) :
      Derives .chain tokens expr := .chain (.unsigned (.run primary))
  cases op with
  | pow => exact .sum (.product (.chain (.unsigned (.power operates (.run isLeft) isRight))))
  | mul | div => exact .sum (.times operates rfl (.product (chain isLeft)) (chain isRight))
  | add | sub =>
      exact .add operates rfl (.sum (.product (chain isLeft))) (.product (chain isRight))

/-- The tokens around a token of a given kind. -/
theorem exists_middle {tokens : List Token} {before after : List TokenKind} {middle : TokenKind}
    (isKinds : tokens.map Token.kind = before ++ middle :: after) :
    ∃ left token right, tokens = left ++ token :: right ∧ left.map Token.kind = before ∧
      token.kind = middle ∧ right.map Token.kind = after := by
  obtain ⟨left, rest, rfl, isLeft, isRest⟩ := List.map_eq_append_iff.mp isKinds
  obtain ⟨token, right, rfl, isToken, isRight⟩ := List.map_eq_cons_iff.mp isRest
  exact ⟨left, token, right, rfl, isLeft, isToken, isRight⟩

/-- The tokens of a bracket. -/
theorem exists_bracket {tokens : List Token} {opens : TokenKind} {kinds : List TokenKind}
    (isKinds : tokens.map Token.kind = opens :: (kinds ++ [.bracketClose])) :
    ∃ opener inside closer, tokens = opener :: (inside ++ [closer]) ∧ opener.kind = opens ∧
      inside.map Token.kind = kinds ∧ closer.kind = .bracketClose := by
  obtain ⟨opener, rest, rfl, isOpener, isRest⟩ := List.map_eq_cons_iff.mp isKinds
  obtain ⟨inside, closer, none, rfl, isInside, closes, isNone⟩ := exists_middle isRest
  obtain rfl := List.map_eq_nil_iff.mp isNone
  exact ⟨opener, inside, closer, rfl, isOpener, isInside, closes⟩

theorem readsBack_negation {x : Expr} (operand : ReadsBack bound x) :
    ReadsBack bound x.negate := by
  obtain ⟨pieces, kinds, writes, derives⟩ := operand
  have isText : x.negate.format.toList = '(' :: (('-' :: x.format.toList) ++ [')']) := by
    have minusOne : (Expr.number Binary32.minusOne).isMinusOne = true := by decide
    simp [Expr.negate, Expr.format, minusOne]
  refine ⟨_, _, isText ▸ writes.negation.brackets, ?_⟩
  intro tokens isKinds
  obtain ⟨opener, inside, closer, rfl, opens, isInside, closes⟩ := exists_bracket isKinds
  obtain ⟨sign, tokens, rfl, signs, isKinds⟩ := List.map_eq_cons_iff.mp isInside
  obtain ⟨x', derives, rereads⟩ := derives tokens isKinds
  exact ⟨x'.negate, .brackets opens closes (.sum (.product (.chain (.minus signs
    (.unsigned (.run derives)))))), .negation rereads⟩

theorem readsBack_binary {lhs rhs : Expr} (op : Operator) (plain : lhs.isMinusOne = false)
    (left : ReadsBack bound lhs) (right : ReadsBack bound rhs) :
    ReadsBack bound (.binary lhs op rhs) := by
  obtain ⟨before, first, writes, derives⟩ := left
  obtain ⟨after, second, writes', derives'⟩ := right
  have isText : (Expr.binary lhs op rhs).format.toList =
      '(' :: ((lhs.format.toList ++ ' ' :: op.symbol :: ' ' :: rhs.format.toList) ++ [')']) := by
    simp [Expr.format, plain]
  refine ⟨_, _, isText ▸ (writes.operation op writes').brackets, ?_⟩
  intro tokens isKinds
  obtain ⟨opener, inside, closer, rfl, opens, isInside, closes⟩ := exists_bracket isKinds
  obtain ⟨left, token, right, rfl, isLeft, operates, isRight⟩ := exists_middle isInside
  obtain ⟨lhs', derives, rereads⟩ := derives left isLeft
  obtain ⟨rhs', derives', rereads'⟩ := derives' right isRight
  exact ⟨.binary lhs' op rhs', .brackets opens closes (.operation operates derives derives'),
    .binary op rereads rereads'⟩

theorem readsBack_intrinsic {name : String} (span : Span) (isName : IsName name) :
    ReadsBack bound (.intrinsic name span) := by
  have isText : (Expr.intrinsic name span).format.toList = name.toList ++ '(' :: ([] ++ [')']) := by
    simp [Expr.format, Expr.callFormat]
  refine ⟨_, _, isText ▸ Writes.nothing.call isName.isWord, ?_⟩
  intro tokens isKinds
  obtain ⟨opener, inside, closer, rfl, opens, isInside, closes⟩ := exists_bracket isKinds
  obtain rfl := List.map_eq_nil_iff.mp isInside
  have derives := Derives.intrinsic opens closes
  rw [isName.lower] at derives
  exact ⟨_, derives, .intrinsic name span opener.span⟩

theorem readsBack_unary {name : String} {arg : Expr} (span : Span) (isName : IsName name)
    (argument : ReadsBack bound arg) : ReadsBack bound (.unary name arg span) := by
  obtain ⟨pieces, kinds, writes, derives⟩ := argument
  have isText : (Expr.unary name arg span).format.toList =
      name.toList ++ '(' :: (arg.format.toList ++ [')']) := by
    simp [Expr.format, Expr.callFormat]
  refine ⟨_, _, isText ▸ writes.call isName.isWord, ?_⟩
  intro tokens isKinds
  obtain ⟨opener, inside, closer, rfl, opens, isInside, closes⟩ := exists_bracket isKinds
  obtain ⟨arg', derives, rereads⟩ := derives inside isInside
  have derives := Derives.unary opens closes derives.ofPrimary
  rw [isName.lower] at derives
  exact ⟨_, derives, .unary name span opener.span rereads⟩

theorem readsBack_binaryCall {name : String} {a b : Expr} (span : Span) (isName : IsName name)
    (first : ReadsBack bound a) (second : ReadsBack bound b) :
    ReadsBack bound (.binaryCall name a b span) := by
  obtain ⟨_, _, writes, derives⟩ := first
  obtain ⟨_, _, writes', derives'⟩ := second
  have isText : (Expr.binaryCall name a b span).format.toList =
      name.toList ++ '(' :: ((a.format.toList ++ ',' :: ' ' :: b.format.toList) ++ [')']) := by
    simp [Expr.format, Expr.callFormat]
  refine ⟨_, _, isText ▸ (writes.separator writes').call isName.isWord, ?_⟩
  intro tokens isKinds
  obtain ⟨opener, inside, closer, rfl, opens, isInside, closes⟩ := exists_bracket isKinds
  obtain ⟨left, comma, right, rfl, isLeft, separates, isRight⟩ := exists_middle isInside
  obtain ⟨a', derives, rereads⟩ := derives left isLeft
  obtain ⟨b', derives', rereads'⟩ := derives' right isRight
  have derives := Derives.binaryCall opens separates closes derives.ofPrimary derives'.ofPrimary
  rw [isName.lower] at derives
  refine ⟨_, ?_, .binaryCall name span opener.span rereads rereads'⟩
  simpa using derives

theorem readsBack_tertiary {name : String} {a b c : Expr} (span : Span) (isName : IsName name)
    (first : ReadsBack bound a) (second : ReadsBack bound b) (third : ReadsBack bound c) :
    ReadsBack bound (.tertiary name a b c span) := by
  obtain ⟨_, _, writes, derives⟩ := first
  obtain ⟨_, _, writes', derives'⟩ := second
  obtain ⟨_, _, writes'', derives''⟩ := third
  have isText : (Expr.tertiary name a b c span).format.toList =
      name.toList ++ '(' :: ((a.format.toList ++ ',' :: ' ' ::
        (b.format.toList ++ ',' :: ' ' :: c.format.toList)) ++ [')']) := by
    simp [Expr.format, Expr.callFormat]
  refine ⟨_, _, isText ▸ (writes.separator (writes'.separator writes'')).call isName.isWord, ?_⟩
  intro tokens isKinds
  obtain ⟨opener, inside, closer, rfl, opens, isInside, closes⟩ := exists_bracket isKinds
  obtain ⟨left, comma, rest, rfl, isLeft, separates, isRest⟩ := exists_middle isInside
  obtain ⟨middle, comma', right, rfl, isMiddle, separates', isRight⟩ := exists_middle isRest
  obtain ⟨a', derives, rereads⟩ := derives left isLeft
  obtain ⟨b', derives', rereads'⟩ := derives' middle isMiddle
  obtain ⟨c', derives'', rereads''⟩ := derives'' right isRight
  have derives := Derives.tertiary opens separates separates' closes derives.ofPrimary
    derives'.ofPrimary derives''.ofPrimary
  rw [isName.lower] at derives
  refine ⟨_, ?_, .tertiary name span opener.span rereads rereads' rereads''⟩
  simpa using derives

theorem Binary32.not_minusOne {value : Binary32} (unsigned : value.IsUnsigned) :
    value.equals minusOne = false := by
  have negative : minusOne.rank < 0 := by decide
  have positive : 0 ≤ value.rank := by
    simp [rank, unsigned.positive]
  have differ : value.rank ≠ minusOne.rank := by omega
  simp [equals, differ]

theorem FormulaTree.not_isMinusOne {expr : Expr} (tree : FormulaTree bound expr) :
    expr.isMinusOne = false := by
  cases tree with
  | number unsigned => exact Binary32.not_minusOne unsigned
  | _ => rfl

/-- Every tree of a formula is read back from what is written. -/
theorem FormulaTree.readsBack {expr : Expr} (tree : FormulaTree bound expr) :
    ReadsBack bound expr := by
  induction tree with
  | number unsigned => exact (readsBackWord_number unsigned).readsBack
  | image below => exact (readsBackWord_image below).readsBack
  | negation _ operand => exact readsBack_negation operand
  | binary op isLeft _ left right => exact readsBack_binary op isLeft.not_isMinusOne left right
  | intrinsic span isName => exact readsBack_intrinsic span isName
  | unary span isName _ argument => exact readsBack_unary span isName argument
  | binaryCall span isName _ _ first second => exact readsBack_binaryCall span isName first second
  | tertiary span isName _ _ _ first second third =>
      exact readsBack_tertiary span isName first second third

end ReadsBack

/-! ## The same tree again -/

/-- The tokens of a formatted tree, with the tree that they have. -/
theorem ReadsBack.exists_tokens {bound : Nat} {expr : Expr} (readsBack : ReadsBack bound expr) :
    ∃ tokens expr', List.Forall₂ (Lexeme.Reads bound) (Lexeme.cut expr.format) tokens ∧
      Derives .sum tokens expr' ∧ Rereads expr expr' := by
  obtain ⟨pieces, kinds, writes, derives⟩ := readsBack
  have cut : Cut pieces := by simpa using writes.cut [] .nil fun _ => trivial
  have reads := writes.reads
  rw [← Piece.place_kinds 0, ← Lexeme.cutFrom_pieces cut, writes.text_eq] at reads
  obtain ⟨tokens, reads, isKinds⟩ := Lexeme.exists_tokens reads
  obtain ⟨expr', derives, rereads⟩ := derives tokens isKinds
  exact ⟨tokens, expr', reads, derives.ofPrimary, rereads⟩

/-- The tree of a single token is written as one word. -/
theorem readsBackWord_of_single {bound : Nat} {text : String} {token : Token} {expr : Expr}
    (reads : List.Forall₂ (Lexeme.Reads bound) (Lexeme.cut text) [token])
    (derives : Derives .sum [token] expr) : ReadsBackWord bound expr := by
  obtain ⟨lexeme, -, isToken⟩ := Lexeme.exists_lexeme reads (.head _)
  obtain ⟨word, value⟩ := isToken.exists_word (Engine.kind_of_derives_singleton derives)
  rcases Scope.image_or_number_of_wordValue? value with ⟨slot, rfl, below⟩ | ⟨number, rfl⟩
  · exact readsBackWord_image below
  · exact readsBackWord_number (Scope.isUnsigned_of_wordValue? value)

theorem ReadsBackWord.exists_token {bound : Nat} {expr : Expr} (word : ReadsBackWord bound expr) :
    ∃ token expr', List.Forall₂ (Lexeme.Reads bound) (Lexeme.cut expr.format) [token] ∧
      Derives .sum [token] expr' ∧ Rereads expr expr' := by
  obtain ⟨text, expr', isText, isWord, value, rereads⟩ := word
  refine ⟨Token.ofKind (.value expr') ⟨0, text.length⟩, expr', ?_, .ofValue rfl, rereads⟩
  rw [isText, cut_word isWord]
  exact .cons ⟨.value expr', by simp [LexemeKind.token?, value], rfl⟩ .nil

namespace Limits

variable {limits : Limits} {text : String} {equation : Equation}

/-- What compiles compiles again after formatting, to the tree that its literals are read back to,
with the same usage. -/
theorem compile_format (compiled : limits.compile text = .ok equation) :
    ∃ again, limits.compile equation.format = .ok again ∧ Rereads equation.root again.root ∧
      again.usage = equation.usage := by
  obtain ⟨tokens, reads, derives, low, isUsage⟩ := compile_eq_ok_iff.mp compiled
  have tree := derives.formulaTree (formulaToken_of_reads reads)
  obtain ⟨tokens', root, reads', derives', rereads, low'⟩ : ∃ tokens' root,
      List.Forall₂ (Lexeme.Reads limits.slots) (Lexeme.cut equation.format) tokens' ∧
        Derives .sum tokens' root ∧ Rereads equation.root root ∧
        (root.height ≤ limits.depth ∨ tokens'.length = 1) := by
    rcases low with low | single
    · obtain ⟨tokens', root, reads', derives', rereads⟩ := tree.readsBack.exists_tokens
      exact ⟨tokens', root, reads', derives', rereads, .inl (rereads.height ▸ low)⟩
    · -- a single token may be above the limit, and then stays a single token
      obtain ⟨token, rfl⟩ := List.length_eq_one_iff.mp single
      obtain ⟨token', root, reads', derives', rereads⟩ :=
        (readsBackWord_of_single reads derives).exists_token
      exact ⟨[token'], root, reads', derives', rereads, .inr rfl⟩
  refine ⟨⟨root, equation.usage⟩, compile_eq_ok_iff.mpr ⟨tokens', reads', derives', low', ?_⟩,
    rereads, rfl⟩
  rw [isUsage, rereads.images]

theorem compile_format_negation :
    let limits : Limits := ⟨2, 5⟩
    let power : Expr := .binary (.image 1) .pow (.number .smallest)
    let largest : Expr := .binaryCall "max" (.image 0) (.number .infinity) ⟨10, 14⟩
    let equation : Equation := ⟨.binary power.negate .mul largest, ⟨some 1, some 0, some 1, [0, 1]⟩⟩
    limits.compile "-I1^1e-45*MAX(I0, inf)" = .ok equation ∧
      ∃ again, limits.compile equation.format = .ok again ∧ Rereads equation.root again.root ∧
        again.usage = equation.usage := by
  intro limits power largest equation
  have compiled : limits.compile "-I1^1e-45*MAX(I0, inf)" = .ok equation := by decide +kernel
  exact ⟨compiled, compile_format compiled⟩

end Limits

end ImageFormula
