import ImageFormula.Equation
import ImageFormula.Proofs.Literals

/-!
# Renaming an image

An image is renamed in the text of a formula: the words that stand for it are replaced by another
name, and nothing else is. The new words are cut as the old ones were, so the tokens are the same
but for their slots and places, and a formula with related tokens has a related tree. The main
statement is `renameImage_eq_ok`.
-/

namespace ImageFormula

/-! ## Trees of related tokens -/

/-- A relation of trees of one height that is kept by operations and calls, whatever the places of
the calls are. -/
structure Congruent (related : Expr → Expr → Prop) : Prop where
  height {expr expr' : Expr} (same : related expr expr') : expr'.height = expr.height
  number (value : Binary32) : related (.number value) (.number value)
  binary {lhs lhs' rhs rhs' : Expr} (op : Operator) (left : related lhs lhs')
    (right : related rhs rhs') : related (.binary lhs op rhs) (.binary lhs' op rhs')
  intrinsic (name : String) (span span' : Span) :
    related (.intrinsic name span) (.intrinsic name span')
  unary {arg arg' : Expr} (name : String) (span span' : Span) (argument : related arg arg') :
    related (.unary name arg span) (.unary name arg' span')
  binaryCall {a a' b b' : Expr} (name : String) (span span' : Span) (first : related a a')
    (second : related b b') : related (.binaryCall name a b span) (.binaryCall name a' b' span')
  tertiary {a a' b b' c c' : Expr} (name : String) (span span' : Span) (first : related a a')
    (second : related b b') (third : related c c') :
    related (.tertiary name a b c span) (.tertiary name a' b' c' span')

theorem Congruent.flip {related : Expr → Expr → Prop} (congruent : Congruent related) :
    Congruent (flip related) where
  height same := (congruent.height same).symm
  number := congruent.number
  binary op left right := congruent.binary op left right
  intrinsic name span span' := congruent.intrinsic name span' span
  unary name span span' argument := congruent.unary name span' span argument
  binaryCall name span span' first second := congruent.binaryCall name span' span first second
  tertiary name span span' first second third :=
    congruent.tertiary name span' span first second third

/-- Tokens of one kind, up to related values. -/
inductive Token.Related (related : Expr → Expr → Prop) (token token' : Token) : Prop
  | value {expr expr' : Expr} (isValue : token.kind = .value expr)
      (isValue' : token'.kind = .value expr') (same : related expr expr')
  | other (same : token'.kind = token.kind) (noValue : ∀ expr, token.kind ≠ .value expr)

namespace Token.Related

variable {related : Expr → Expr → Prop} {token token' : Token}

theorem flip (same : Related related token token') : Related (flip related) token' token := by
  cases same with
  | value isValue isValue' same => exact .value isValue' isValue same
  | other same noValue => exact .other same.symm (same ▸ noValue)

theorem exists_value {expr : Expr} (same : Related related token token')
    (isValue : token.kind = .value expr) :
    ∃ expr', token'.kind = .value expr' ∧ related expr expr' := by
  cases same with
  | value isValue₁ isValue' same =>
      obtain rfl := TokenKind.value.inj (isValue.symm.trans isValue₁)
      exact ⟨_, isValue', same⟩
  | other same noValue => exact absurd isValue (noValue expr)

theorem kind_eq {kind : TokenKind} (same : Related related token token')
    (isKind : token.kind = kind) (noValue : ∀ expr, kind ≠ .value expr) : token'.kind = kind := by
  cases same with
  | value isValue => exact absurd (isKind.symm.trans isValue) (noValue _)
  | other same => rw [same, isKind]

end Token.Related

/-- Tokens that are related to others with a token between them have one there, too. -/
theorem exists_middle_of_forall₂ {related : Token → Token → Prop} {token : Token}
    {left right tokens' : List Token}
    (same : List.Forall₂ related (left ++ token :: right) tokens') :
    ∃ left' token' right', List.Forall₂ related left left' ∧ related token token' ∧
      List.Forall₂ related right right' ∧ tokens' = left' ++ token' :: right' := by
  have before : List.Forall₂ related left (tokens'.take left.length) := by
    simpa using List.forall₂_take left.length same
  have after : List.Forall₂ related (token :: right) (tokens'.drop left.length) := by
    simpa using List.forall₂_drop left.length same
  obtain ⟨token', right', first, rest, isDrop⟩ := List.forall₂_cons_left_iff.mp after
  refine ⟨_, token', right', before, first, rest, ?_⟩
  rw [← isDrop, List.take_append_drop]

/-- Related tokens have related trees. -/
theorem Derives.exists_related {related : Expr → Expr → Prop} (congruent : Congruent related)
    {level : Level} {tokens tokens' : List Token} {expr : Expr}
    (derives : Derives level tokens expr)
    (same : List.Forall₂ (Token.Related related) tokens tokens') :
    ∃ expr', Derives level tokens' expr' ∧ related expr expr' := by
  induction derives generalizing tokens' with
  | value isValue =>
      obtain ⟨token', _, first, rest, rfl⟩ := List.forall₂_cons_left_iff.mp same
      cases rest
      obtain ⟨expr', isValue', same⟩ := first.exists_value isValue
      exact ⟨expr', .value isValue', same⟩
  | brackets opens closes body ih =>
      obtain ⟨opener', _, first, rest, rfl⟩ := List.forall₂_cons_left_iff.mp same
      obtain ⟨inside', closer', _, inside, last, ⟨⟩, rfl⟩ := exists_middle_of_forall₂ rest
      obtain ⟨expr', derives', same⟩ := ih inside
      exact ⟨expr', .brackets (first.kind_eq opens nofun) (last.kind_eq closes nofun) derives',
        same⟩
  | intrinsic opens closes =>
      obtain ⟨opener', _, first, rest, rfl⟩ := List.forall₂_cons_left_iff.mp same
      obtain ⟨closer', _, last, ⟨⟩, rfl⟩ := List.forall₂_cons_left_iff.mp rest
      exact ⟨_, .intrinsic (first.kind_eq opens nofun) (last.kind_eq closes nofun),
        congruent.intrinsic _ _ _⟩
  | unary opens closes body ih =>
      obtain ⟨opener', _, first, rest, rfl⟩ := List.forall₂_cons_left_iff.mp same
      obtain ⟨inside', closer', _, inside, last, ⟨⟩, rfl⟩ := exists_middle_of_forall₂ rest
      obtain ⟨arg', derives', same⟩ := ih inside
      exact ⟨_, .unary (first.kind_eq opens nofun) (last.kind_eq closes nofun) derives',
        congruent.unary _ _ _ same⟩
  | binaryCall opens separates closes body body' ih ih' =>
      obtain ⟨opener', _, first, rest, rfl⟩ := List.forall₂_cons_left_iff.mp same
      obtain ⟨left', comma', _, left, comma, behind, rfl⟩ := exists_middle_of_forall₂ rest
      obtain ⟨right', closer', _, right, last, ⟨⟩, rfl⟩ := exists_middle_of_forall₂ behind
      obtain ⟨a', derivesA, sameA⟩ := ih left
      obtain ⟨b', derivesB, sameB⟩ := ih' right
      exact ⟨_, .binaryCall (first.kind_eq opens nofun) (comma.kind_eq separates nofun)
        (last.kind_eq closes nofun) derivesA derivesB, congruent.binaryCall _ _ _ sameA sameB⟩
  | tertiary opens separates separates' closes body body' body'' ih ih' ih'' =>
      obtain ⟨opener', _, first, rest, rfl⟩ := List.forall₂_cons_left_iff.mp same
      obtain ⟨left', _, _, left, comma, behind, rfl⟩ := exists_middle_of_forall₂ rest
      obtain ⟨middle', _, _, middle, comma', end', rfl⟩ := exists_middle_of_forall₂ behind
      obtain ⟨right', closer', _, right, last, ⟨⟩, rfl⟩ := exists_middle_of_forall₂ end'
      obtain ⟨a', derivesA, sameA⟩ := ih left
      obtain ⟨b', derivesB, sameB⟩ := ih' middle
      obtain ⟨c', derivesC, sameC⟩ := ih'' right
      exact ⟨_, .tertiary (first.kind_eq opens nofun) (comma.kind_eq separates nofun)
        (comma'.kind_eq separates' nofun) (last.kind_eq closes nofun) derivesA derivesB derivesC,
        congruent.tertiary _ _ _ sameA sameB sameC⟩
  | run _ ih =>
      obtain ⟨expr', derives', same⟩ := ih same
      exact ⟨expr', .run derives', same⟩
  | unsigned _ ih =>
      obtain ⟨expr', derives', same⟩ := ih same
      exact ⟨expr', .unsigned derives', same⟩
  | chain _ ih =>
      obtain ⟨expr', derives', same⟩ := ih same
      exact ⟨expr', .chain derives', same⟩
  | product _ ih =>
      obtain ⟨expr', derives', same⟩ := ih same
      exact ⟨expr', .product derives', same⟩
  | sum _ ih =>
      obtain ⟨expr', derives', same⟩ := ih same
      exact ⟨expr', .sum derives', same⟩
  | plus signs _ ih =>
      obtain ⟨sign', _, first, rest, rfl⟩ := List.forall₂_cons_left_iff.mp same
      obtain ⟨expr', derives', same⟩ := ih rest
      exact ⟨expr', .plus (first.kind_eq signs nofun) derives', same⟩
  | minus signs _ ih =>
      obtain ⟨sign', _, first, rest, rfl⟩ := List.forall₂_cons_left_iff.mp same
      obtain ⟨expr', derives', same⟩ := ih rest
      exact ⟨_, .minus (first.kind_eq signs nofun) derives',
        congruent.binary _ (congruent.number _) same⟩
  | power raises _ _ ih ih' =>
      obtain ⟨left', caret', right', left, caret, right, rfl⟩ := exists_middle_of_forall₂ same
      obtain ⟨lhs', derivesL, sameL⟩ := ih left
      obtain ⟨rhs', derivesR, sameR⟩ := ih' right
      exact ⟨_, .power (caret.kind_eq raises nofun) derivesL derivesR,
        congruent.binary _ sameL sameR⟩
  | chainPower raises signs isSign _ _ ih ih' =>
      obtain ⟨left', caret', _, left, caret, right, rfl⟩ := exists_middle_of_forall₂ same
      obtain ⟨rhs', derivesR, sameR⟩ := ih' right
      obtain ⟨sign', right', sign, -, rfl⟩ := List.forall₂_cons_left_iff.mp right
      obtain ⟨lhs', derivesL, sameL⟩ := ih left
      -- the sign that starts the exponent is a sign on the other side, too
      exact ⟨_, .chainPower (caret.kind_eq raises nofun) (sign.kind_eq signs nofun) isSign derivesL
        derivesR, congruent.binary _ sameL sameR⟩
  | times operates tier _ _ ih ih' =>
      obtain ⟨left', token', right', left, token, right, rfl⟩ := exists_middle_of_forall₂ same
      obtain ⟨lhs', derivesL, sameL⟩ := ih left
      obtain ⟨rhs', derivesR, sameR⟩ := ih' right
      exact ⟨_, .times (token.kind_eq operates nofun) tier derivesL derivesR,
        congruent.binary _ sameL sameR⟩
  | add operates tier _ _ ih ih' =>
      obtain ⟨left', token', right', left, token, right, rfl⟩ := exists_middle_of_forall₂ same
      obtain ⟨lhs', derivesL, sameL⟩ := ih left
      obtain ⟨rhs', derivesR, sameR⟩ := ih' right
      exact ⟨_, .add (token.kind_eq operates nofun) tier derivesL derivesR,
        congruent.binary _ sameL sameR⟩

/-! ## Texts with related tokens -/

namespace Lexeme

theorem Reads.functional {bound : Nat} {lexeme : Lexeme} {token token' : Token}
    (reads : Reads bound lexeme token) (reads' : Reads bound lexeme token') : token = token' := by
  obtain ⟨kind, isKind, rfl⟩ := reads
  obtain ⟨kind', isKind', rfl⟩ := reads'
  rw [Option.some.inj (isKind.symm.trans isKind')]

theorem tokens_unique {bound : Nat} {lexemes : List Lexeme} {tokens tokens' : List Token}
    (reads : List.Forall₂ (Reads bound) lexemes tokens)
    (reads' : List.Forall₂ (Reads bound) lexemes tokens') : tokens = tokens' := by
  have unique : Relator.RightUnique (Reads bound) := fun _ _ _ => Reads.functional
  exact List.right_unique_forall₂' unique reads reads'

end Lexeme

namespace Limits

variable {limits : Limits} {text text' : String} {tokens tokens' : List Token}

/-- A text with the given tokens compiles if they have a tree that is not too high. -/
theorem compile_eq_ok_iff_of_reads {equation : Equation}
    (reads : List.Forall₂ (Lexeme.Reads limits.slots) (Lexeme.cut text) tokens) :
    limits.compile text = .ok equation ↔
      Derives .sum tokens equation.root ∧
        (equation.root.height ≤ limits.depth ∨ tokens.length = 1) ∧
        equation.usage = Usage.empty.recordAll equation.root.images := by
  rw [compile_eq_ok_iff]
  constructor
  · rintro ⟨tokens', reads', compiled⟩
    rwa [Lexeme.tokens_unique reads reads']
  · exact fun compiled => ⟨tokens, reads, compiled⟩

/-- What compiles still does with related tokens, to a related tree. -/
theorem compile_related {related : Expr → Expr → Prop} (congruent : Congruent related)
    (reads : List.Forall₂ (Lexeme.Reads limits.slots) (Lexeme.cut text) tokens)
    (reads' : List.Forall₂ (Lexeme.Reads limits.slots) (Lexeme.cut text') tokens')
    (same : List.Forall₂ (Token.Related related) tokens tokens') {equation : Equation}
    (compiled : limits.compile text = .ok equation) :
    ∃ equation', limits.compile text' = .ok equation' ∧ related equation.root equation'.root := by
  obtain ⟨derives, low, -⟩ := (compile_eq_ok_iff_of_reads reads).mp compiled
  obtain ⟨root', derives', sameRoot⟩ := derives.exists_related congruent same
  refine ⟨⟨root', Usage.empty.recordAll root'.images⟩, ?_, sameRoot⟩
  rw [← congruent.height sameRoot, same.length_eq] at low
  exact (compile_eq_ok_iff_of_reads reads').mpr ⟨derives', low, rfl⟩

end Limits

/-! ## Renamed trees -/

namespace Expr

/-- The tree with image `old` replaced by image `new`. -/
def renameImage (old new : Nat) : Expr → Expr
  | number value => number value
  | image slot => image (if slot = old then new else slot)
  | binary lhs op rhs => binary (lhs.renameImage old new) op (rhs.renameImage old new)
  | intrinsic name span => intrinsic name span
  | unary name arg span => unary name (arg.renameImage old new) span
  | binaryCall name first second span =>
    binaryCall name (first.renameImage old new) (second.renameImage old new) span
  | tertiary name first second third span =>
    tertiary name (first.renameImage old new) (second.renameImage old new)
      (third.renameImage old new) span

/-- The tree without the places of its calls. -/
def unplaced : Expr → Expr
  | number value => number value
  | image slot => image slot
  | binary lhs op rhs => binary lhs.unplaced op rhs.unplaced
  | intrinsic name _ => intrinsic name ⟨0, 0⟩
  | unary name arg _ => unary name arg.unplaced ⟨0, 0⟩
  | binaryCall name first second _ => binaryCall name first.unplaced second.unplaced ⟨0, 0⟩
  | tertiary name first second third _ =>
    tertiary name first.unplaced second.unplaced third.unplaced ⟨0, 0⟩

theorem height_renameImage (old new : Nat) (expr : Expr) :
    (expr.renameImage old new).height = expr.height := by
  induction expr <;> simp_all [renameImage, height]

theorem height_unplaced (expr : Expr) : expr.unplaced.height = expr.height := by
  induction expr <;> simp_all [unplaced, height]

/-- The second tree is the first one with an image renamed, up to the places of calls. -/
def Renamed (old new : Nat) (expr expr' : Expr) : Prop :=
  expr'.unplaced = (expr.renameImage old new).unplaced

theorem congruent_renamed (old new : Nat) : Congruent (Renamed old new) where
  height same := by
    rw [← height_unplaced, same, height_unplaced, height_renameImage]
  number value := rfl
  binary op left right := by simp_all [Renamed, renameImage, unplaced]
  intrinsic name span span' := rfl
  unary name span span' argument := by simp_all [Renamed, renameImage, unplaced]
  binaryCall name span span' first second := by simp_all [Renamed, renameImage, unplaced]
  tertiary name span span' first second third := by simp_all [Renamed, renameImage, unplaced]

end Expr

/-- The kind of a token with image `old` replaced by image `new`. -/
def TokenKind.renameImage (old new : Nat) : TokenKind → TokenKind
  | value expr => value (expr.renameImage old new)
  | kind => kind

theorem Token.related_of_renameImage {old new : Nat} {token token' : Token}
    (isKind : token'.kind = token.kind.renameImage old new) :
    Token.Related (Expr.Renamed old new) token token' := by
  cases kind : token.kind with
  | value expr =>
      rw [kind] at isKind
      exact .value kind isKind rfl
  | operator | functionStart | bracketOpen | bracketClose | separator =>
      rw [kind] at isKind
      exact .other (isKind.trans kind.symm) (by simp [kind])

theorem Token.forall₂_of_renameImage {old new : Nat} {tokens tokens' : List Token}
    (kinds : tokens'.map Token.kind = tokens.map fun token => token.kind.renameImage old new) :
    List.Forall₂ (Token.Related (Expr.Renamed old new)) tokens tokens' := by
  induction tokens generalizing tokens' with
  | nil =>
      obtain rfl := List.map_eq_nil_iff.mp kinds
      exact .nil
  | cons token tokens ih =>
      obtain ⟨token', rest', rfl, isKind, kinds⟩ := List.map_eq_cons_iff.mp kinds
      exact .cons (related_of_renameImage isKind) (ih kinds)

/-! ## Renamed words -/

namespace Scope

theorem slot?_of_lt {bound bound' slot : Nat} {index : List Char}
    (isSlot : slot? bound index = some slot) (below : slot < bound') :
    slot? bound' index = some slot := by
  unfold slot? at isSlot ⊢
  split at isSlot
  · split at isSlot
    · obtain rfl := Option.some.inj isSlot
      simp [below]
    · contradiction
  · contradiction

/-- What a word stands for does not depend on the bound, if it is below it. -/
theorem wordValue?_of_lt {bound bound' : Nat} {word : String} {expr : Expr}
    (value : wordValue? bound word = some expr) (below : ∀ slot ∈ expr.images, slot < bound') :
    wordValue? bound' word = some expr := by
  unfold wordValue? imageValue? at value ⊢
  split at value
  · split at value
    · rename_i alpha
      rw [if_pos alpha]
      split at value
      · exact value
      · split at value
        · obtain ⟨slot, isSlot, rfl⟩ := Option.map_eq_some_iff.mp value
          rw [slot?_of_lt isSlot (by simpa [Expr.images] using below)]
          rfl
        · exact value
    · rename_i notAlpha
      rw [if_neg notAlpha]
      exact value
  · exact value

end Scope

theorem LexemeKind.token?_of_lt {bound bound' : Nat} {lexeme : LexemeKind} {kind : TokenKind}
    (isKind : lexeme.token? bound = some kind) (below : ∀ slot ∈ kind.images, slot < bound') :
    lexeme.token? bound' = some kind := by
  cases lexeme with
  | word text =>
      obtain ⟨expr, value, rfl⟩ := Option.map_eq_some_iff.mp isKind
      rw [token?, Scope.wordValue?_of_lt value below]
      rfl
  | operator | bracketOpen | bracketClose | separator | functionStart => exact isKind

theorem Lexeme.reads_of_lt {bound bound' : Nat} {lexemes : List Lexeme} {tokens : List Token}
    (reads : List.Forall₂ (Reads bound) lexemes tokens)
    (below : ∀ slot ∈ tokenImages tokens, slot < bound') :
    List.Forall₂ (Reads bound') lexemes tokens := by
  induction reads with
  | nil => exact .nil
  | cons first _ ih =>
      rw [tokenImages_cons] at below
      obtain ⟨kind, isKind, rfl⟩ := first
      refine .cons ⟨kind, LexemeKind.token?_of_lt isKind ?_, rfl⟩ (ih ?_)
      · exact fun slot member => below slot (List.mem_append_left _ member)
      · exact fun slot member => below slot (List.mem_append_right _ member)

namespace Piece

/-- Whether a piece is a word that stands for an image. -/
def IsImage (slot : Nat) : Piece → Prop
  | word text => Scope.wordValue? unboundedSlots (String.ofList text) = some (.image slot)
  | _ => False

instance (slot : Nat) : (piece : Piece) → Decidable (piece.IsImage slot)
  | word _ => inferInstanceAs (Decidable (_ = _))
  | blank _ | operator _ | separator | bracketOpen | bracketClose | call _ =>
    inferInstanceAs (Decidable False)

/-- The piece with the name of image `old` replaced by that of image `new`. -/
def rename (old new : Nat) (piece : Piece) : Piece :=
  if piece.IsImage old then word (imageName new) else piece

variable {old new : Nat}

theorem Valid.rename {piece : Piece} (valid : piece.Valid) : (piece.rename old new).Valid := by
  unfold Piece.rename
  split
  · exact isWord_imageName new
  · exact valid

theorem Ends.rename {piece : Piece} {text : List Char} (ends : piece.Ends text) :
    (piece.rename old new).Ends text := by
  cases piece with
  | word => exact ends.elim
  | _ => exact ends

/-- What ends a word ends an image name in its place. -/
theorem Ends.imageName {piece : Piece} {text : List Char} (ends : piece.Ends text) :
    piece.Ends (imageName new) := by
  cases piece with
  | operator op => exact fun _ => not_expectsExponent_imageName new
  | _ => exact ends

theorem Apart.rename {piece : Piece} {pieces : List Piece} (apart : piece.Apart pieces) :
    (piece.rename old new).Apart (pieces.map (Piece.rename old new)) := by
  cases piece with
  | word text =>
      unfold Piece.rename
      cases pieces with
      | nil => split <;> trivial
      | cons next pieces =>
          split
          · exact (Ends.imageName apart).rename
          · exact Ends.rename apart
  | _ => trivial

end Piece

theorem Cut.rename (old new : Nat) {pieces : List Piece} (cut : Cut pieces) :
    Cut (pieces.map (Piece.rename old new)) := by
  induction cut with
  | nil => exact .nil
  | cons valid apart _ ih => exact .cons valid.rename apart.rename ih

/-! ## Renamed texts -/

namespace Piece

variable {old new bound : Nat}

/-- A renamed piece reads as a renamed token. -/
theorem token?_rename {piece : Piece} {lexeme : LexemeKind} {kind : TokenKind}
    (isLexeme : piece.kind? = some lexeme) (isKind : lexeme.token? unboundedSlots = some kind)
    (below : ∀ slot ∈ kind.images, slot < bound) (newBelow : new < bound) :
    ∃ lexeme', (piece.rename old new).kind? = some lexeme' ∧
      lexeme'.token? bound = some (kind.renameImage old new) := by
  cases piece with
  | word text =>
      obtain rfl := Option.some.inj isLexeme
      obtain ⟨expr, value, rfl⟩ := Option.map_eq_some_iff.mp isKind
      by_cases isImage : expr = .image old
      · subst isImage
        refine ⟨.word (String.ofList (imageName new)), ?_, ?_⟩
        · simp [rename, IsImage, value, kind?]
        · simp [LexemeKind.token?, Scope.wordValue?_imageName newBelow, TokenKind.renameImage,
            Expr.renameImage]
      · have unnamed : ¬(word text).IsImage old := by
          exact fun named => isImage (Option.some.inj (value.symm.trans named))
        refine ⟨.word (String.ofList text), by simp [rename, unnamed, kind?], ?_⟩
        rw [LexemeKind.token?_of_lt isKind below]
        rcases Scope.image_or_number_of_wordValue? value with ⟨slot, rfl, -⟩ | ⟨number, rfl⟩
        · have other : slot ≠ old := fun same => isImage (by rw [same])
          simp [TokenKind.renameImage, Expr.renameImage, other]
        · rfl
  | blank c => cases isLexeme
  | operator | separator | bracketOpen | bracketClose | call =>
      cases isLexeme
      cases isKind
      exact ⟨_, rfl, rfl⟩

theorem kind?_rename {piece : Piece} (isBlank : piece.kind? = none) :
    (piece.rename old new).kind? = none := by
  cases piece with
  | blank c => rfl
  | _ => cases isBlank

/-- Renamed pieces read as renamed tokens. -/
theorem reads_rename (old : Nat) {pieces : List Piece} {kinds : List TokenKind}
    (reads : List.Forall₂ (fun lexeme kind => LexemeKind.token? unboundedSlots lexeme = some kind)
      (pieces.filterMap kind?) kinds)
    (below : ∀ kind ∈ kinds, ∀ slot ∈ kind.images, slot < bound) (newBelow : new < bound) :
    List.Forall₂ (fun lexeme kind => LexemeKind.token? bound lexeme = some kind)
      ((pieces.map (rename old new)).filterMap kind?)
      (kinds.map (TokenKind.renameImage old new)) := by
  induction pieces generalizing kinds with
  | nil =>
      cases reads
      exact .nil
  | cons piece pieces ih =>
      cases isLexeme : piece.kind? with
      | none =>
          rw [List.filterMap_cons_none isLexeme] at reads
          rw [List.map_cons, List.filterMap_cons_none (kind?_rename isLexeme)]
          exact ih reads below
      | some lexeme =>
          rw [List.filterMap_cons_some isLexeme] at reads
          cases reads with
          | cons first reads =>
              obtain ⟨belowFirst, below⟩ := List.forall_mem_cons.mp below
              obtain ⟨lexeme', isLexeme', isKind'⟩ :=
                token?_rename isLexeme first belowFirst newBelow
              rw [List.map_cons, List.filterMap_cons_some isLexeme', List.map_cons]
              exact .cons isKind' (ih reads below)

end Piece

/-- `Replaced replacement position text spans result`: the text starts at `position`, and the result
is the text with the replacement at each of the spans, which stand in it in order. -/
inductive Replaced (replacement : List Char) : Nat → List Char → List Span → List Char → Prop
  | done (position : Nat) (text : List Char) : Replaced replacement position text [] text
  | replace {position : Nat} {before inside after result : List Char} {span : Span}
      {spans : List Span} (starts : span.start = position + before.length)
      (stops : span.stop = span.start + inside.length)
      (rest : Replaced replacement span.stop after spans result) :
      Replaced replacement position (before ++ (inside ++ after)) (span :: spans)
        (before ++ (replacement ++ result))

theorem Replaced.keep {replacement : List Char} {position : Nat} {text result : List Char}
    {spans : List Span} (kept : List Char)
    (replaced : Replaced replacement (position + kept.length) text spans result) :
    Replaced replacement position (kept ++ text) spans (kept ++ result) := by
  cases replaced with
  | done => exact .done position (kept ++ text)
  | @replace _ before inside after result span spans starts stops rest =>
      rw [← List.append_assoc kept, ← List.append_assoc kept]
      exact .replace (by rw [starts, List.length_append, Nat.add_assoc]) stops rest

/-- The places where a token sequence refers to an image. -/
def imageSpans (slot : Nat) (tokens : List Token) : List Span :=
  (tokens.filter fun token => token.kind = .value (.image slot)).map Token.span

theorem imageSpans_of_image {slot : Nat} {token : Token} {tokens : List Token}
    (isImage : token.kind = .value (.image slot)) :
    imageSpans slot (token :: tokens) = token.span :: imageSpans slot tokens := by
  simp [imageSpans, isImage]

theorem imageSpans_of_other {slot : Nat} {token : Token} {tokens : List Token}
    (other : token.kind ≠ .value (.image slot)) :
    imageSpans slot (token :: tokens) = imageSpans slot tokens := by
  simp [imageSpans, other]

theorem renameFrom_of_image {old new position : Nat} {text : List Char} {token : Token}
    {tokens : List Token} (isImage : token.kind = .value (.image old)) :
    renameFrom old new position text (token :: tokens) =
      text.take (token.span.start - position) ++ (imageName new ++
        renameFrom old new token.span.stop (text.drop (token.span.stop - position)) tokens) := by
  rw [renameFrom, if_pos isImage, List.append_assoc, imageName]

theorem renameFrom_of_other {old new position : Nat} {text : List Char} {token : Token}
    {tokens : List Token} (other : token.kind ≠ .value (.image old)) :
    renameFrom old new position text (token :: tokens) =
      renameFrom old new position text tokens := by
  rw [renameFrom, if_neg other]

theorem renameFrom_keep {old new position : Nat} {tokens : List Token} (kept text : List Char)
    (behind : ∀ token ∈ tokens, position + kept.length ≤ token.span.start ∧
      token.span.start ≤ token.span.stop) :
    renameFrom old new position (kept ++ text) tokens =
      kept ++ renameFrom old new (position + kept.length) text tokens := by
  induction tokens with
  | nil => rfl
  | cons token tokens ih =>
      obtain ⟨⟨starts, stops⟩, behind⟩ := List.forall_mem_cons.mp behind
      by_cases isImage : token.kind = .value (.image old)
      · -- the token starts behind what is kept, so the cut before it takes all of that
        rw [renameFrom_of_image isImage, renameFrom_of_image isImage, List.take_append,
          List.take_of_length_le (by omega), List.drop_append, List.drop_eq_nil_of_le (by omega),
          Nat.sub_sub, Nat.sub_sub, List.append_assoc, List.nil_append]
      · rw [renameFrom_of_other isImage, renameFrom_of_other isImage, ih behind]

namespace Piece

variable {old position : Nat} {pieces : List Piece} {tokens : List Token}

theorem isImage_iff {piece : Piece} {lexeme : LexemeKind} {kind : TokenKind}
    (isLexeme : piece.kind? = some lexeme) (isKind : lexeme.token? unboundedSlots = some kind) :
    piece.IsImage old ↔ kind = .value (.image old) := by
  cases piece with
  | word text =>
      obtain rfl := Option.some.inj isLexeme
      obtain ⟨expr, value, rfl⟩ := Option.map_eq_some_iff.mp isKind
      simp [IsImage, value]
  | blank c => cases isLexeme
  | operator | separator | bracketOpen | bracketClose | call =>
      cases isLexeme
      cases isKind
      simp [IsImage]

theorem place_behind : ∀ lexeme ∈ place position pieces,
    position ≤ lexeme.span.start ∧ lexeme.span.start ≤ lexeme.span.stop := by
  induction pieces generalizing position with
  | nil => simp [place]
  | cons piece pieces ih =>
      have later : ∀ lexeme ∈ place (position + piece.chars.length) pieces,
          position ≤ lexeme.span.start ∧ lexeme.span.start ≤ lexeme.span.stop := by
        intro lexeme member
        obtain ⟨starts, stops⟩ := ih lexeme member
        exact ⟨by omega, stops⟩
      rw [place]
      cases piece.kind? with
      | none => exact later
      | some lexeme => exact List.forall_mem_cons.mpr ⟨⟨Nat.le_refl _, Nat.le_add_right _ _⟩, later⟩

theorem tokens_behind
    (reads : List.Forall₂ (Lexeme.Reads unboundedSlots) (place position pieces) tokens) :
    ∀ token ∈ tokens, position ≤ token.span.start ∧ token.span.start ≤ token.span.stop := by
  intro token member
  obtain ⟨lexeme, inPlace, kind, isKind, rfl⟩ := Lexeme.exists_lexeme reads member
  exact place_behind lexeme inPlace

variable (new : Nat)

theorem rename_of_isImage {piece : Piece} (isImage : piece.IsImage old) :
    piece.rename old new = word (imageName new) :=
  if_pos isImage

theorem rename_of_not_isImage {piece : Piece} (other : ¬piece.IsImage old) :
    piece.rename old new = piece :=
  if_neg other

/-- Renaming in a text is renaming its pieces, and replaces the places of the image. -/
theorem renameFrom_text (old : Nat)
    (reads : List.Forall₂ (Lexeme.Reads unboundedSlots) (place position pieces) tokens) :
    renameFrom old new position (text pieces) tokens = text (pieces.map (rename old new)) ∧
      Replaced (imageName new) position (text pieces) (imageSpans old tokens)
        (text (pieces.map (rename old new))) := by
  induction pieces generalizing position tokens with
  | nil =>
      cases reads
      exact ⟨rfl, .done position []⟩
  | cons piece pieces ih =>
      rw [place] at reads
      rw [text_cons, List.map_cons, text_cons]
      -- a piece that is kept stays before what is renamed behind it
      have kept (other : ¬piece.IsImage old) {later : List Token}
          (reads : List.Forall₂ (Lexeme.Reads unboundedSlots)
            (place (position + piece.chars.length) pieces) later) :
          renameFrom old new position (piece.chars ++ text pieces) later =
              (piece.rename old new).chars ++ text (pieces.map (rename old new)) ∧
            Replaced (imageName new) position (piece.chars ++ text pieces) (imageSpans old later)
              ((piece.rename old new).chars ++ text (pieces.map (rename old new))) := by
        obtain ⟨renamed, replaced⟩ := ih reads
        rw [rename_of_not_isImage new other]
        exact ⟨by rw [renameFrom_keep _ _ (tokens_behind reads), renamed], replaced.keep _⟩
      cases isLexeme : piece.kind? with
      | none =>
          rw [isLexeme] at reads
          exact kept (fun isImage => by cases piece <;> simp_all [IsImage, kind?]) reads
      | some lexeme =>
          rw [isLexeme] at reads
          cases reads with
          | cons first reads =>
              obtain ⟨kind, isKind, rfl⟩ := first
              by_cases isImage : piece.IsImage old
              · obtain rfl := (isImage_iff isLexeme isKind).mp isImage
                obtain ⟨renamed, replaced⟩ := ih reads
                rw [rename_of_isImage new isImage, imageSpans_of_image rfl, renameFrom_of_image rfl]
                refine ⟨?_, @Replaced.replace _ _ [] _ _ _ _ _ rfl rfl replaced⟩
                have isName : (word (imageName new)).chars = imageName new := rfl
                simp [Token.ofKind, isName, renamed]
              · have notValue := mt (isImage_iff isLexeme isKind).mpr isImage
                rw [imageSpans_of_other notValue, renameFrom_of_other notValue]
                exact kept isImage reads

end Piece

/-- What is read with the greatest bound has a renamed text, which is read as renamed tokens with
every bound that is large enough. -/
theorem exists_renamed {text : String} {tokens : List Token} (old new : Nat)
    (reads : List.Forall₂ (Lexeme.Reads unboundedSlots) (Lexeme.cut text) tokens) :
    ∃ renamed : String, renameFrom old new 0 text.toList tokens = renamed.toList ∧
      Replaced (imageName new) 0 text.toList (imageSpans old tokens) renamed.toList ∧
      ∀ bound, new < bound → (∀ slot ∈ tokenImages tokens, slot < bound) →
        ∃ tokens', List.Forall₂ (Lexeme.Reads bound) (Lexeme.cut renamed) tokens' ∧
          tokens'.map Token.kind = tokens.map fun token => token.kind.renameImage old new := by
  obtain ⟨pieces, cut, isText⟩ := Lexeme.exists_pieces text.toList
  rw [Lexeme.cut, ← isText, Lexeme.cutFrom_pieces cut] at reads
  obtain ⟨renamed, replaced⟩ := Piece.renameFrom_text new old reads
  rw [← isText]
  refine ⟨String.ofList (Piece.text (pieces.map (Piece.rename old new))), ?_, ?_, ?_⟩
  · rw [String.toList_ofList, renamed]
  · rw [String.toList_ofList]
    exact replaced
  · intro bound newBelow below
    have kinds : List.Forall₂
        (fun lexeme kind => LexemeKind.token? unboundedSlots lexeme = some kind)
        (pieces.filterMap Piece.kind?) (tokens.map Token.kind) := by
      rw [← Piece.place_kinds 0, List.forall₂_map_left_iff, List.forall₂_map_right_iff]
      refine reads.imp ?_
      rintro lexeme _ ⟨kind, isKind, rfl⟩
      exact isKind
    have kindsBelow : ∀ kind ∈ tokens.map Token.kind, ∀ slot ∈ kind.images, slot < bound := by
      intro kind member slot inKind
      obtain ⟨token, inTokens, rfl⟩ := List.mem_map.mp member
      exact below slot (List.mem_flatMap.mpr ⟨token, inTokens, inKind⟩)
    have kinds' := Piece.reads_rename old kinds kindsBelow newBelow
    rw [← Piece.place_kinds 0, ← Lexeme.cutFrom_pieces (cut.rename old new)] at kinds'
    obtain ⟨tokens', reads', isKinds⟩ := Lexeme.exists_tokens kinds'
    refine ⟨tokens', ?_, by rw [isKinds, List.map_map]; rfl⟩
    rwa [Lexeme.cut, String.toList_ofList]

/-- A formula that can be read at all has a text with image `old` renamed to `new`. There the new
name stands in place of the old one, and nothing else changes. It reads as the same tokens with the
image renamed, and with slots enough for both it compiles if and only if the formula does, to the
same tree with the image renamed. -/
theorem renameImage_eq_ok {text : String} {tokens : List Token} {after : Scope} {new : Nat}
    (reads : (Scope.images unboundedSlots .empty).tokens text = (.ok tokens, after)) (old : Nat)
    (newBelow : new < unboundedSlots) :
    ∃ renamed, renameImage text old new = .ok renamed ∧
      Replaced (imageName new) 0 text.toList (imageSpans old tokens) renamed.toList ∧
      (∃ tokens' after',
        (Scope.images unboundedSlots .empty).tokens renamed = (.ok tokens', after') ∧
        tokens'.map Token.kind = tokens.map fun token => token.kind.renameImage old new) ∧
      ∀ limits : Limits, new < limits.slots → (∀ slot ∈ tokenImages tokens, slot < limits.slots) →
        ((∃ equation, limits.compile text = .ok equation) ↔
          ∃ equation', limits.compile renamed = .ok equation') ∧
        ∀ equation equation', limits.compile text = .ok equation →
          limits.compile renamed = .ok equation' →
          equation'.root.unplaced = (equation.root.renameImage old new).unplaced := by
  obtain ⟨nonempty, isTokens, -⟩ := Scope.tokens_eq_ok_iff.mp reads
  obtain ⟨renamed, isRenamed, replaced, readsRenamed⟩ := exists_renamed old new isTokens
  refine ⟨renamed, ?_, replaced, ?_, ?_⟩
  · simp only [renameImage, reads, isRenamed, String.ofList_toList]
  · obtain ⟨tokens', isTokens', kinds⟩ :=
      readsRenamed unboundedSlots newBelow (Lexeme.images_lt isTokens)
    have nonempty' : tokens' ≠ [] := by
      rintro rfl
      exact nonempty (List.map_eq_nil_iff.mp kinds.symm)
    exact ⟨tokens', _, Scope.tokens_eq_ok_iff.mpr ⟨nonempty', isTokens', rfl⟩, kinds⟩
  · intro limits newBelow below
    have isTokens := Lexeme.reads_of_lt isTokens below
    obtain ⟨tokens', isTokens', kinds⟩ := readsRenamed limits.slots newBelow below
    have related := Token.forall₂_of_renameImage kinds
    have congruent := Expr.congruent_renamed old new
    have renames {equation : Equation} (compiled : limits.compile text = .ok equation) :=
      Limits.compile_related congruent isTokens isTokens' related compiled
    refine ⟨⟨?_, ?_⟩, ?_⟩
    · rintro ⟨equation, compiled⟩
      obtain ⟨equation', compiled', -⟩ := renames compiled
      exact ⟨equation', compiled'⟩
    · -- the image cannot be renamed back, but the relation of the tokens can be read backwards
      rintro ⟨equation', compiled'⟩
      have related' := related.flip.imp fun _ _ same => same.flip
      obtain ⟨equation, compiled, -⟩ :=
        Limits.compile_related congruent.flip isTokens' isTokens related' compiled'
      exact ⟨equation, compiled⟩
    · intro equation equation' compiled compiled'
      obtain ⟨again, compiledAgain, same⟩ := renames compiled
      rw [Except.ok.inj (compiled'.symm.trans compiledAgain)]
      exact same

theorem renameImage_eq_ok_max :
    let text := "I01^-max(I10,I1)"
    let tokens : List Token := [.ofKind (.value (.image 1)) ⟨0, 3⟩, .ofKind (.operator .pow) ⟨3, 4⟩,
      .ofKind (.operator .sub) ⟨4, 5⟩, .ofKind (.functionStart "max") ⟨5, 9⟩,
      .ofKind (.value (.image 10)) ⟨9, 12⟩, .ofKind .separator ⟨12, 13⟩,
      .ofKind (.value (.image 1)) ⟨13, 15⟩, .ofKind .bracketClose ⟨15, 16⟩]
    (Scope.images unboundedSlots .empty).tokens text =
        (.ok tokens, .images unboundedSlots ⟨some 1, some 1, some 10, [1, 10]⟩) ∧
      7 < unboundedSlots ∧
      ∃ renamed, renameImage text 1 7 = .ok renamed ∧
        Replaced (imageName 7) 0 text.toList [⟨0, 3⟩, ⟨13, 15⟩] renamed.toList ∧
        ((∃ equation, (⟨11, 4⟩ : Limits).compile text = .ok equation) ↔
          ∃ equation, (⟨11, 4⟩ : Limits).compile renamed = .ok equation) := by
  intro text tokens
  have reads : (Scope.images unboundedSlots .empty).tokens text =
      (.ok tokens, .images unboundedSlots ⟨some 1, some 1, some 10, [1, 10]⟩) := by
    decide +kernel
  have newBelow : 7 < unboundedSlots := by decide
  obtain ⟨renamed, isRenamed, replaced, -, compiles⟩ := renameImage_eq_ok reads 1 newBelow
  have below : ∀ slot ∈ tokenImages tokens, slot < 11 := by decide
  exact ⟨reads, newBelow, renamed, isRenamed, replaced, (compiles ⟨11, 4⟩ (by decide) below).1⟩

end ImageFormula
