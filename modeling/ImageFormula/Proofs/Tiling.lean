import ImageFormula.Proofs.Spacing
import ImageFormula.Token.Reader

/-!
# Tokens tile the formula

The spans of the tokens of a formula stand one after the other, and cover all of its characters but
the white space. What is under a span is the token: the character of an operator, a bracket or a
comma, the name of a call with its bracket, or a word that stands for the value.

* **lexemes**: each piece of a text is white space or under one span (`Piece.tiles_place`);
* **tokens**: a lexeme gives the same token whatever was read before it (`Lexeme.tokens_forall₂`).

The main statement is `Scope.tokens_tile`.
-/

namespace ImageFormula

/-! ## Spans -/

/-- Spans of a text that starts at `position`. They are not empty, lie inside the text one after the
other, and cover its characters without the white space. -/
structure Tiles (position : Nat) (text : List Char) (spans : List Span) : Prop where
  nonempty : ∀ span ∈ spans, span.start < span.stop
  inside : ∀ span ∈ spans, position ≤ span.start ∧ span.stop ≤ position + text.length
  apart : spans.Pairwise fun left right => left.stop ≤ right.start
  covered : ∀ (i : Nat) (c : Char), text[i]? = some c →
    ((∃ span ∈ spans, span.start ≤ position + i ∧ position + i < span.stop) ↔
      Text.isBlank c = false)

namespace Tiles

variable {position : Nat} {left right chars : List Char} {spans spans' : List Span}

theorem nil : Tiles position [] [] where
  nonempty := by simp
  inside := by simp
  apart := .nil
  covered := by simp

theorem blank {c : Char} (isBlank : Text.isBlank c = true) : Tiles position [c] [] where
  nonempty := by simp
  inside := by simp
  apart := .nil
  covered := by
    intro i d isChar
    obtain ⟨-, rfl⟩ : i = 0 ∧ c = d := by simpa [List.getElem?_singleton] using isChar
    simp [isBlank]

theorem span (nonempty : chars ≠ []) (visible : ∀ c ∈ chars, Text.isBlank c = false) :
    Tiles position chars [⟨position, position + chars.length⟩] where
  nonempty := by
    have := List.length_pos_iff.mpr nonempty
    simpa using this
  inside := by simp
  apart := by simp
  covered := by
    intro i c isChar
    have isVisible := visible c (List.mem_of_getElem? isChar)
    obtain ⟨inside, -⟩ := List.getElem?_eq_some_iff.mp isChar
    simpa [isVisible] using inside

theorem append (first : Tiles position left spans)
    (second : Tiles (position + left.length) right spans') :
    Tiles position (left ++ right) (spans ++ spans') where
  nonempty := List.forall_mem_append.mpr ⟨first.nonempty, second.nonempty⟩
  inside := by
    rw [List.length_append]
    intro span member
    rcases List.mem_append.mp member with member | member
    · have := first.inside span member
      omega
    · have := second.inside span member
      omega
  apart := by
    refine List.pairwise_append.mpr ⟨first.apart, second.apart, fun a inFirst b inSecond => ?_⟩
    exact Nat.le_trans (first.inside a inFirst).2 (second.inside b inSecond).1
  covered := by
    intro i c isChar
    simp only [List.mem_append, or_and_right, exists_or]
    by_cases low : i < left.length
    · -- the spans on the right start behind the character
      rw [List.getElem?_append_left low] at isChar
      rw [← first.covered i c isChar, or_iff_left]
      rintro ⟨span, member, start, -⟩
      have := second.inside span member
      omega
    · rw [List.getElem?_append_right (by omega)] at isChar
      have same : position + left.length + (i - left.length) = position + i := by omega
      rw [← second.covered _ c isChar, same, or_iff_right]
      rintro ⟨span, member, -, stop⟩
      have := first.inside span member
      omega

end Tiles

namespace Piece

theorem visible {piece : Piece} (valid : piece.Valid) (isLexeme : piece.kind?.isSome = true) :
    ∀ c ∈ piece.chars, Text.isBlank c = false := by
  have word {text : List Char} (isWord : IsWord text) : ∀ c ∈ text, Text.isBlank c = false := by
    intro c member
    have notBlank := isWord.held.not_blank c (List.mem_reverse.mpr member)
    simpa [Mark.ofChar_eq_blank] using notBlank
  cases piece with
  | blank => contradiction
  | word text => exact word valid
  | operator op =>
      refine List.forall_mem_singleton.mpr ?_
      cases op <;> decide
  | separator | bracketOpen | bracketClose => exact List.forall_mem_singleton.mpr (by decide)
  | call name =>
      exact List.forall_mem_append.mpr ⟨word valid, List.forall_mem_singleton.mpr (by decide)⟩

/-- The lexemes of pieces tile their text. -/
theorem tiles_place {position : Nat} {pieces : List Piece} (valid : ∀ piece ∈ pieces, piece.Valid) :
    Tiles position (text pieces) ((place position pieces).map Lexeme.span) := by
  induction pieces generalizing position with
  | nil => exact .nil
  | cons piece pieces ih =>
      obtain ⟨isPiece, rest⟩ := List.forall_mem_cons.mp valid
      rw [text_cons, place]
      cases isLexeme : piece.kind? with
      | none =>
          cases piece with
          | blank c => exact (Tiles.blank (Mark.ofChar_eq_blank.mp isPiece)).append (ih rest)
          | word | operator | separator | bracketOpen | bracketClose | call => cases isLexeme
      | some kind =>
          exact (Tiles.span (chars_ne_nil isPiece) (visible isPiece (by simp [isLexeme]))).append
            (ih rest)

end Piece

/-! ## Tokens -/

namespace Scope

/-- The names of a scope, with none of them met. -/
def names : Scope → Scope
  | images bound _ => images bound .empty
  | sizes values => sizes values

theorem names_resolve (scope : Scope) (identifier : String) (span : Span) :
    (scope.resolve identifier span).2.names = scope.names := by
  unfold resolve
  repeat' split
  all_goals rfl

/-- What an identifier stands for does not depend on the names that have been met. -/
theorem resolve_names (scope : Scope) (identifier : String) (span : Span) :
    (scope.names.resolve identifier span).1 = (scope.resolve identifier span).1 := by
  cases scope with
  | sizes values => rfl
  | images bound usage =>
      simp only [names, resolve]
      repeat' split
      all_goals simp_all

theorem names_readWord (scope : Scope) (word : String) (span : Span) :
    (scope.readWord word span).2.names = scope.names := by
  unfold readWord
  repeat' split
  all_goals first | rfl | exact names_resolve scope word span

theorem readWord_names (scope : Scope) (word : String) (span : Span) :
    (scope.names.readWord word span).1 = (scope.readWord word span).1 := by
  unfold readWord
  repeat' split
  all_goals first | rfl | exact resolve_names scope word span

/-- What stands at the span of a token is the token. A word stands for a value by its first
character: as an identifier of the scope, or as a literal. -/
def Spells (scope : Scope) (text : List Char) (token : Token) : Prop :=
  let chars := token.span.chars text
  match token.kind with
  | .operator op => chars = [op.symbol]
  | .bracketOpen => chars = ['(']
  | .bracketClose => chars = [')']
  | .separator => chars = [',']
  | .functionStart name => chars = name.toList ++ ['(']
  | .value expr => ∃ first more, chars = first :: more ∧
    if first.isAlpha then (scope.resolve (String.ofList chars) token.span).1 = .ok expr
    else ∃ decimal, Decimal.parse? chars = some decimal ∧ expr = .number decimal.narrowed

theorem readWord_eq_ok {scope : Scope} {word : String} {span : Span} {expr : Expr}
    (read : (scope.readWord word span).1 = .ok expr) :
    ∃ first more, word.toList = first :: more ∧
      if first.isAlpha then (scope.resolve word span).1 = .ok expr
      else ∃ decimal, Decimal.parse? word.toList = some decimal ∧
        expr = .number decimal.narrowed := by
  unfold readWord at read
  cases chars : word.toList with
  | nil => simp [chars] at read
  | cons first more =>
      refine ⟨first, more, rfl, ?_⟩
      rw [chars] at read
      cases isAlpha : first.isAlpha with
      | true => simpa [isAlpha] using read
      | false =>
          cases parsed : Decimal.parse? (first :: more) with
          | none => simp [isAlpha, parsed] at read
          | some decimal =>
              have isNumber : .number decimal.narrowed = expr := by
                simpa [isAlpha, parsed] using read
              simp [isNumber]

end Scope

namespace Lexeme

variable {lexeme : Lexeme} {scope : Scope} {token : Token}

theorem names_token (lexeme : Lexeme) (scope : Scope) :
    (lexeme.token scope).2.names = scope.names := by
  unfold Lexeme.token
  cases lexeme.kind with
  | word text =>
      have same := scope.names_readWord text lexeme.span
      simp only
      split <;> rename_i read <;> rw [read] at same <;> exact same
  | operator | bracketOpen | bracketClose | separator | functionStart => rfl

theorem token_names (lexeme : Lexeme) (scope : Scope) :
    (lexeme.token scope.names).1 = (lexeme.token scope).1 := by
  unfold Lexeme.token
  cases lexeme.kind with
  | word text =>
      have same := scope.readWord_names text lexeme.span
      simp only
      split <;> split <;> simp_all
  | operator | bracketOpen | bracketClose | separator | functionStart => rfl

/-- A lexeme gives the token that it gives at the start. -/
theorem tokens_forall₂ {lexemes : List Lexeme} {read : List Token} {after : Scope}
    (isRead : tokens lexemes scope = (.ok read, after)) :
    List.Forall₂ (fun lexeme token => (lexeme.token scope).1 = .ok token) lexemes read := by
  induction lexemes generalizing scope read with
  | nil =>
      cases isRead
      exact .nil
  | cons lexeme more ih =>
      rw [tokens] at isRead
      split at isRead
      · cases isRead
      · rename_i first middle isFirst
        split at isRead
        · cases isRead
        · rename_i rest final isRest
          cases isRead
          have same : middle.names = scope.names := by
            rw [← names_token lexeme scope, isFirst]
          refine .cons (by rw [isFirst]) ((ih isRest).imp fun later token given => ?_)
          rwa [← token_names, ← same, token_names]

theorem span_of_given (given : (lexeme.token scope).1 = .ok token) : token.span = lexeme.span := by
  unfold Lexeme.token at given
  repeat' split at given
  all_goals cases given
  all_goals rfl

theorem spans_of_given {lexemes : List Lexeme} {read : List Token}
    (given : List.Forall₂ (fun lexeme token => (lexeme.token scope).1 = .ok token) lexemes read) :
    read.map Token.span = lexemes.map Lexeme.span := by
  induction given with
  | nil => rfl
  | cons first _ ih => rw [List.map_cons, List.map_cons, span_of_given first, ih]

/-- A lexeme that is written at its span gives a token that stands there. -/
theorem Stands.spells {text : List Char} {piece : Piece} (stands : Stands text lexeme piece)
    (given : (lexeme.token scope).1 = .ok token) : scope.Spells text token := by
  have kind := stands.kind
  have chars := stands.chars
  rw [← span_of_given given] at chars
  unfold Lexeme.token at given
  unfold Scope.Spells
  rw [chars]
  cases piece with
  | blank => cases kind
  | word word =>
      rw [← Option.some.inj kind] at given
      simp only at given
      split at given
      · rename_i expr after read
        cases given
        have value := Scope.readWord_eq_ok (congrArg Prod.fst read)
        rwa [String.toList_ofList] at value
      · cases given
  | operator | separator | bracketOpen | bracketClose | call =>
      rw [← Option.some.inj kind] at given
      cases given
      simp [Token.ofKind, Piece.chars]

end Lexeme

/-- The tokens of a formula tile it, and each is what stands at its span. -/
theorem Scope.tokens_tile {scope after : Scope} {text : String} {read : List Token}
    (isRead : scope.tokens text = (.ok read, after)) :
    Tiles 0 text.toList (read.map Token.span) ∧ ∀ token ∈ read, scope.Spells text.toList token := by
  have isRead : Lexeme.tokens (Lexeme.cut text) scope = (.ok read, after) := by
    unfold tokens at isRead
    split at isRead
    · cases isRead
    · exact isRead
  have given := Lexeme.tokens_forall₂ isRead
  constructor
  · obtain ⟨pieces, isCut, isText⟩ := Lexeme.exists_pieces text.toList
    rw [Lexeme.spans_of_given given, Lexeme.cut, ← isText, Lexeme.cutFrom_pieces isCut]
    exact Piece.tiles_place isCut.valid
  · intro token member
    obtain ⟨lexeme, inText, given⟩ := Lexeme.exists_lexeme given member
    obtain ⟨piece, stands⟩ := Lexeme.exists_stands inText
    exact stands.spells given

/-- The sign of an exponent is under the span of its number, and the bracket of a call under that of
its name. -/
theorem Scope.tokens_tile_exponent :
    let scope := images 2 .empty
    let text := " I1*max(1e-2,\u2003I0)"
    let read := [Token.ofKind (.value (.image 1)) ⟨1, 3⟩, .ofKind (.operator .mul) ⟨3, 4⟩,
      .ofKind (.functionStart "max") ⟨4, 8⟩, .ofKind (.value (.number ⟨0x3C23D70A⟩)) ⟨8, 12⟩,
      .ofKind .separator ⟨12, 13⟩, .ofKind (.value (.image 0)) ⟨14, 16⟩,
      .ofKind .bracketClose ⟨16, 17⟩]
    (scope.tokens text).1 = .ok read ∧ Tiles 0 text.toList (read.map Token.span) ∧
      ∀ token ∈ read, scope.Spells text.toList token := by
  intro scope text read
  have isRead : (scope.tokens text).1 = .ok read := by decide +kernel
  exact ⟨isRead, tokens_tile (Prod.ext isRead rfl)⟩

end ImageFormula
