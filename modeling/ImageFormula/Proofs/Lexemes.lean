import Mathlib.Data.List.Forall2
import ImageFormula.Proofs.Pieces

/-!
# Where lexemes stand

Every lexeme of a text is written by a piece, and its span is where the characters of the piece are
(`Lexeme.exists_stands`). So a lexeme is never empty and does not go past the end of the text, and
the text of a word is what stands at its span.
-/

namespace ImageFormula

/-- The characters of a text from the start of a span up to its stop. -/
def Span.chars (span : Span) (text : List Char) : List Char :=
  (text.drop span.start).take span.length

theorem Span.chars_middle (before inside after : List Char) :
    Span.chars ⟨before.length, before.length + inside.length⟩ (before ++ (inside ++ after)) =
      inside := by
  simp [chars, length]

/-- A lexeme is written by a piece, at its span. -/
structure Lexeme.Stands (text : List Char) (lexeme : Lexeme) (piece : Piece) : Prop where
  valid : piece.Valid
  kind : piece.kind? = some lexeme.kind
  place : ∃ before after, text = before ++ (piece.chars ++ after) ∧
    lexeme.span = ⟨before.length, before.length + piece.chars.length⟩

theorem Piece.chars_ne_nil {piece : Piece} (valid : piece.Valid) : piece.chars ≠ [] := by
  cases piece with
  | word text => exact IsWord.nonempty valid
  | blank | operator | separator | bracketOpen | bracketClose | call => simp [chars]

/-- The pieces that are no blanks write the lexemes, in order. -/
theorem Piece.place_stands {before : List Char} {pieces : List Piece}
    (valid : ∀ piece ∈ pieces, piece.Valid) :
    List.Forall₂ (Lexeme.Stands (before ++ text pieces)) (place before.length pieces)
      (pieces.filter fun piece => piece.kind?.isSome) := by
  induction pieces generalizing before with
  | nil => exact .nil
  | cons piece pieces ih =>
      obtain ⟨isPiece, valid⟩ := List.forall_mem_cons.mp valid
      -- what is behind the piece stands in the same text, after one piece more
      have behind := @ih (before ++ piece.chars) valid
      rw [List.append_assoc, ← text_cons, List.length_append] at behind
      rw [place]
      cases isLexeme : piece.kind? with
      | none => simpa [isLexeme] using behind
      | some kind =>
          rw [List.filter_cons_of_pos (by simp [isLexeme])]
          exact .cons ⟨isPiece, isLexeme, before, text pieces, rfl, rfl⟩ behind

namespace Lexeme

variable {text : List Char} {lexeme : Lexeme} {piece : Piece}

theorem Stands.chars (stands : Stands text lexeme piece) :
    lexeme.span.chars text = piece.chars := by
  obtain ⟨before, after, rfl, isSpan⟩ := stands.place
  rw [isSpan, Span.chars_middle]

theorem Stands.start_lt_stop (stands : Stands text lexeme piece) :
    lexeme.span.start < lexeme.span.stop := by
  obtain ⟨before, after, rfl, isSpan⟩ := stands.place
  have := List.length_pos_iff.mpr (Piece.chars_ne_nil stands.valid)
  rw [isSpan]
  show before.length < before.length + piece.chars.length
  omega

theorem Stands.stop_le_length (stands : Stands text lexeme piece) :
    lexeme.span.stop ≤ text.length := by
  obtain ⟨before, after, rfl, isSpan⟩ := stands.place
  rw [isSpan, List.length_append, List.length_append]
  show before.length + piece.chars.length ≤ _
  omega

theorem cut_stands {text : String} {pieces : List Piece} (isCut : Cut pieces)
    (isText : Piece.text pieces = text.toList) :
    List.Forall₂ (Stands text.toList) (cut text)
      (pieces.filter fun piece => piece.kind?.isSome) := by
  rw [cut, ← isText, cutFrom_pieces isCut]
  exact @Piece.place_stands [] pieces isCut.valid

/-- Every lexeme of a text is written by a piece. -/
theorem exists_stands {text : String} {lexeme : Lexeme} (member : lexeme ∈ cut text) :
    ∃ piece, Stands text.toList lexeme piece := by
  obtain ⟨pieces, isCut, isText⟩ := exists_pieces text.toList
  have stands := cut_stands isCut isText
  generalize cut text = lexemes at member stands
  generalize (pieces.filter fun piece => piece.kind?.isSome) = written at stands
  induction stands with
  | nil => cases member
  | cons first _ ih =>
      rcases List.mem_cons.mp member with rfl | member
      · exact ⟨_, first⟩
      · exact ih member

/-- The text of a word is what stands at its span. -/
theorem chars_of_word {text word : String} {lexeme : Lexeme} (member : lexeme ∈ cut text)
    (isWord : lexeme.kind = .word word) : lexeme.span.chars text.toList = word.toList := by
  obtain ⟨piece, stands⟩ := exists_stands member
  have kind := stands.kind
  rw [stands.chars]
  rw [isWord] at kind
  cases piece with
  | word chars =>
      obtain rfl := LexemeKind.word.inj (Option.some.inj kind)
      exact String.toList_ofList.symm
  | blank | operator | separator | bracketOpen | bracketClose | call =>
      simp [Piece.kind?] at kind

end Lexeme

end ImageFormula
