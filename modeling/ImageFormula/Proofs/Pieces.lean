import ImageFormula.Token.Lexeme

/-!
# Texts as pieces

A text is a sequence of pieces: single blanks and the characters of lexemes. Where the pieces could
not run together (`Cut`), cutting the text gives their lexemes back, each in its place
(`cutFrom_pieces`), and every text has such pieces (`exists_pieces`). Statements about two texts
that are cut alike are statements about two sequences of pieces.
-/

namespace ImageFormula

/-! ## Words -/

namespace Lexeme

/-- What can be held of a word, in reverse: letters, and signs that belong to an exponent. -/
inductive Held : List Char → Prop
  | nil : Held []
  | letter {c : Char} {held : List Char} (isLetter : Mark.ofChar c = .letter) (rest : Held held) :
      Held (c :: held)
  | sign {c : Char} {op : Operator} {held : List Char} (operates : Mark.ofChar c = .operator op)
      (isSign : op.isSign = true) (expects : expectsExponent held = true) (rest : Held held) :
      Held (c :: held)

theorem cutFrom_letter {position : Nat} {held rest : List Char} {c : Char}
    (isLetter : Mark.ofChar c = .letter) :
    cutFrom position held (c :: rest) = cutFrom (position + 1) (c :: held) rest := by
  simp [cutFrom, isLetter]

theorem cutFrom_sign {position : Nat} {held rest : List Char} {c : Char} {op : Operator}
    (operates : Mark.ofChar c = .operator op) (isSign : op.isSign = true)
    (expects : expectsExponent held = true) :
    cutFrom position held (c :: rest) = cutFrom (position + 1) (c :: held) rest := by
  simp [cutFrom, operates, isSign, expects]

/-- The characters of a word are held one by one. -/
theorem Held.cutFrom {held : List Char} (isHeld : Held held) (position : Nat) (rest : List Char) :
    cutFrom position [] (held.reverse ++ rest) = cutFrom (position + held.length) held rest := by
  induction isHeld generalizing rest with
  | nil => rfl
  | letter isLetter _ ih =>
      rw [List.reverse_cons, List.append_assoc, ih, List.singleton_append, cutFrom_letter isLetter]
      rfl
  | sign operates isSign expects _ ih =>
      rw [List.reverse_cons, List.append_assoc, ih, List.singleton_append,
        cutFrom_sign operates isSign expects]
      rfl

end Lexeme

/-- A word: it is not empty, and can be held to its end. -/
structure IsWord (text : List Char) : Prop where
  nonempty : text ≠ []
  held : Lexeme.Held text.reverse

theorem IsWord.cutFrom {text : List Char} (isWord : IsWord text) (position : Nat)
    (rest : List Char) :
    Lexeme.cutFrom position [] (text ++ rest) =
      Lexeme.cutFrom (position + text.length) text.reverse rest := by
  have cut := isWord.held.cutFrom position rest
  rwa [List.reverse_reverse, List.length_reverse] at cut

/-! ## Pieces -/

/-- A part of a text: a blank, or the characters of a lexeme. -/
inductive Piece where
  | blank (c : Char)
  | word (text : List Char)
  | operator (op : Operator)
  | separator
  | bracketOpen
  | bracketClose
  | call (name : List Char)
  deriving DecidableEq

namespace Piece

def chars : Piece → List Char
  | blank c => [c]
  | word text => text
  | operator op => [op.symbol]
  | separator => [',']
  | bracketOpen => ['(']
  | bracketClose => [')']
  | call name => name ++ ['(']

/-- The lexeme of a piece; a blank has none. -/
def kind? : Piece → Option LexemeKind
  | blank _ => none
  | word text => some (.word (String.ofList text))
  | operator op => some (.operator op)
  | separator => some .separator
  | bracketOpen => some .bracketOpen
  | bracketClose => some .bracketClose
  | call name => some (.functionStart (String.ofList name))

/-- A blank is white space, and words and names are words. -/
def Valid : Piece → Prop
  | blank c => Mark.ofChar c = .blank
  | word text => IsWord text
  | call name => IsWord name
  | _ => True

/-- Whether a piece ends the word before it, so that the two do not run together. -/
def Ends (text : List Char) : Piece → Prop
  | blank _ | separator | bracketClose => True
  | operator op => op.isSign = true → Lexeme.expectsExponent text.reverse = false
  | word _ | bracketOpen | call _ => False

/-- Whether a piece does not run together with the pieces after it. -/
def Apart : Piece → List Piece → Prop
  | word text, next :: _ => next.Ends text
  | _, _ => True

/-- The text of a sequence of pieces. -/
def text (pieces : List Piece) : List Char := pieces.flatMap chars

/-- The lexemes of a sequence of pieces that starts at `position`. -/
def place : Nat → List Piece → List Lexeme
  | _, [] => []
  | position, piece :: pieces =>
    let stop := position + piece.chars.length
    match piece.kind? with
    | some kind => ⟨kind, ⟨position, stop⟩⟩ :: place stop pieces
    | none => place stop pieces

@[simp] theorem text_nil : text [] = [] := rfl

@[simp] theorem text_cons (piece : Piece) (pieces : List Piece) :
    text (piece :: pieces) = piece.chars ++ text pieces := rfl

@[simp] theorem text_append (left right : List Piece) :
    text (left ++ right) = text left ++ text right := by
  simp [text]

/-- The kinds of the lexemes do not depend on the position. -/
theorem place_kinds (position : Nat) (pieces : List Piece) :
    (place position pieces).map Lexeme.kind = pieces.filterMap kind? := by
  induction pieces generalizing position with
  | nil => rfl
  | cons piece pieces ih =>
      rw [place]
      cases kind : piece.kind? <;> simp [kind, ih]

end Piece

/-- Pieces that cannot run together. -/
inductive Cut : List Piece → Prop
  | nil : Cut []
  | cons {piece : Piece} {pieces : List Piece} (valid : piece.Valid) (apart : piece.Apart pieces)
      (rest : Cut pieces) : Cut (piece :: pieces)

theorem Cut.valid {pieces : List Piece} (cut : Cut pieces) : ∀ piece ∈ pieces, piece.Valid := by
  induction cut with
  | nil => simp
  | cons valid _ _ ih => exact List.forall_mem_cons.mpr ⟨valid, ih⟩

@[simp] theorem Mark.ofChar_symbol (op : Operator) : Mark.ofChar op.symbol = .operator op := by
  cases op <;> decide

@[simp] theorem Mark.ofChar_comma : Mark.ofChar ',' = .separator := by decide

@[simp] theorem Mark.ofChar_opener : Mark.ofChar '(' = .bracketOpen := by decide

@[simp] theorem Mark.ofChar_closer : Mark.ofChar ')' = .bracketClose := by decide

theorem Mark.symbol_of_ofChar {c : Char} {op : Operator} (operates : Mark.ofChar c = .operator op) :
    c = op.symbol := by
  unfold Mark.ofChar at operates
  split at operates
  · rename_i found isOperator
    obtain rfl := Mark.operator.inj operates
    unfold Operator.ofChar? at isOperator
    split at isOperator
    case h_6 => contradiction
    all_goals
      obtain rfl := Option.some.inj isOperator
      rfl
  · repeat' split at operates
    all_goals contradiction

theorem Mark.comma_of_ofChar {c : Char} (separates : Mark.ofChar c = .separator) : c = ',' := by
  unfold Mark.ofChar at separates
  repeat' split at separates
  all_goals first | contradiction | assumption

theorem Mark.opener_of_ofChar {c : Char} (opens : Mark.ofChar c = .bracketOpen) : c = '(' := by
  unfold Mark.ofChar at opens
  repeat' split at opens
  all_goals first | contradiction | assumption

theorem Mark.closer_of_ofChar {c : Char} (closes : Mark.ofChar c = .bracketClose) : c = ')' := by
  unfold Mark.ofChar at closes
  repeat' split at closes
  all_goals first | contradiction | assumption

/-! ## Cutting -/

namespace Lexeme

theorem heldWord_nil (position : Nat) : heldWord position [] = [] := rfl

theorem cutFrom_operator {position : Nat} {held rest : List Char} {c : Char} {op : Operator}
    (operates : Mark.ofChar c = .operator op)
    (ends : op.isSign = true → expectsExponent held = false) :
    cutFrom position held (c :: rest) =
      heldWord position held ++
        ⟨.operator op, ⟨position, position + 1⟩⟩ :: cutFrom (position + 1) [] rest := by
  have notHeld : (op.isSign && expectsExponent held) = false := by
    cases isSign : op.isSign with
    | false => rfl
    | true => exact ends isSign
  simp [cutFrom, operates, notHeld]

/-- A piece that ends a word leaves the word as it is held. -/
theorem cutFrom_ends {piece : Piece} {word rest : List Char} (position : Nat)
    (valid : piece.Valid) (ends : piece.Ends word) :
    cutFrom position word.reverse (piece.chars ++ rest) =
      heldWord position word.reverse ++ cutFrom position [] (piece.chars ++ rest) := by
  cases piece with
  | blank c =>
      have isBlank : Mark.ofChar c = .blank := valid
      simp [Piece.chars, cutFrom, isBlank, heldWord_nil]
  | separator => simp [Piece.chars, cutFrom, heldWord_nil]
  | bracketClose => simp [Piece.chars, cutFrom, heldWord_nil]
  | operator op =>
      rw [Piece.chars, List.singleton_append, cutFrom_operator (Mark.ofChar_symbol op) ends,
        cutFrom_operator (Mark.ofChar_symbol op) fun _ => rfl, heldWord_nil, List.nil_append]
  | word _ | bracketOpen | call _ => exact ends.elim

/-- The end of a text ends a word. -/
theorem cutFrom_apart {pieces : List Piece} {word : List Char} (position : Nat) (cut : Cut pieces)
    (apart : (Piece.word word).Apart pieces) :
    cutFrom position word.reverse (Piece.text pieces) =
      heldWord position word.reverse ++ cutFrom position [] (Piece.text pieces) := by
  cases cut with
  | nil => simp [cutFrom, heldWord_nil]
  | cons valid _ _ => exact cutFrom_ends position valid apart

/-- The lexemes of a text are those of its pieces. -/
theorem cutFrom_pieces {pieces : List Piece} (cut : Cut pieces) (position : Nat) :
    cutFrom position [] (Piece.text pieces) = Piece.place position pieces := by
  induction cut generalizing position with
  | nil => rfl
  | @cons piece pieces valid apart cut ih =>
      rw [Piece.text_cons, Piece.place]
      cases piece with
      | blank c =>
          have isBlank : Mark.ofChar c = .blank := valid
          simp [Piece.chars, Piece.kind?, cutFrom, isBlank, heldWord_nil, ih]
      | word text =>
          have isWord : IsWord text := valid
          have nonempty := isWord.nonempty
          rw [Piece.chars, isWord.cutFrom, cutFrom_apart _ cut apart, ih]
          simp [Piece.kind?, heldWord, nonempty]
      | call name =>
          have isWord : IsWord name := valid
          have nonempty := isWord.nonempty
          rw [Piece.chars, List.append_assoc, isWord.cutFrom]
          have stop : position + (name.length + 1) = position + name.length + 1 := by omega
          simp [cutFrom, Piece.kind?, nonempty, ih, stop]
      | operator op =>
          rw [Piece.chars, List.singleton_append,
            cutFrom_operator (Mark.ofChar_symbol op) fun _ => rfl, heldWord_nil, ih]
          rfl
      | separator | bracketOpen | bracketClose =>
          simp [Piece.chars, Piece.kind?, cutFrom, heldWord_nil, ih]

/-- The word that is held, before a piece that ends it. -/
theorem exists_held {held : List Char} (isHeld : Held held) {pieces : List Piece} (cut : Cut pieces)
    (apart : (Piece.word held.reverse).Apart pieces) :
    ∃ pieces', Cut pieces' ∧ Piece.text pieces' = held.reverse ++ Piece.text pieces := by
  cases held with
  | nil => exact ⟨pieces, cut, rfl⟩
  | cons c held =>
      have isWord : IsWord (c :: held).reverse := ⟨by simp, by rwa [List.reverse_reverse]⟩
      exact ⟨.word (c :: held).reverse :: pieces, .cons isWord apart cut, rfl⟩

/-- What is held and the rest of a text have pieces. -/
theorem exists_pieces_held {held : List Char} (isHeld : Held held) (rest : List Char) :
    ∃ pieces, Cut pieces ∧ Piece.text pieces = held.reverse ++ rest := by
  induction rest generalizing held with
  | nil => exact exists_held isHeld .nil trivial
  | cons c rest ih =>
      obtain ⟨pieces, cut, text⟩ := ih .nil
      -- the piece of `c` alone, after the word that it ends
      have single (piece : Piece) (isPiece : piece.chars = [c]) (valid : piece.Valid)
          (ends : piece.Ends held.reverse) (apart : piece.Apart pieces) :
          ∃ pieces, Cut pieces ∧ Piece.text pieces = held.reverse ++ c :: rest := by
        obtain ⟨pieces', cut, text'⟩ := exists_held isHeld (.cons valid apart cut) ends
        exact ⟨pieces', cut, by simp [text', isPiece, text]⟩
      have longer (isHeld : Held (c :: held)) :
          ∃ pieces, Cut pieces ∧ Piece.text pieces = held.reverse ++ c :: rest := by
        obtain ⟨pieces, cut, text⟩ := ih isHeld
        exact ⟨pieces, cut, by simp [text]⟩
      cases mark : Mark.ofChar c with
      | letter => exact longer (.letter mark isHeld)
      | operator op =>
          -- a sign goes on with a word that waits for its exponent
          cases absorbed : op.isSign && expectsExponent held with
          | true =>
              rw [Bool.and_eq_true] at absorbed
              exact longer (.sign mark absorbed.1 absorbed.2 isHeld)
          | false =>
              refine single (.operator op) ?_ trivial ?_ trivial
              · rw [Mark.symbol_of_ofChar mark]
                rfl
              · intro isSign
                rw [List.reverse_reverse]
                simpa [isSign] using absorbed
      | separator =>
          obtain rfl := Mark.comma_of_ofChar mark
          exact single .separator rfl trivial trivial trivial
      | bracketClose =>
          obtain rfl := Mark.closer_of_ofChar mark
          exact single .bracketClose rfl trivial trivial trivial
      | bracketOpen =>
          obtain rfl := Mark.opener_of_ofChar mark
          cases held with
          | nil =>
              exact ⟨.bracketOpen :: pieces, .cons trivial trivial cut,
                by simp [text, Piece.chars]⟩
          | cons c held =>
              have isWord : IsWord (c :: held).reverse := ⟨by simp, by rwa [List.reverse_reverse]⟩
              exact ⟨.call (c :: held).reverse :: pieces, .cons isWord trivial cut,
                by simp [text, Piece.chars]⟩
      | blank => exact single (.blank c) rfl mark trivial trivial

theorem exists_pieces (chars : List Char) : ∃ pieces, Cut pieces ∧ Piece.text pieces = chars :=
  exists_pieces_held .nil chars

/-- The names of calls are words. -/
theorem isWord_of_functionStart {text name : String} {lexeme : Lexeme} (member : lexeme ∈ cut text)
    (opens : lexeme.kind = .functionStart name) : IsWord name.toList := by
  obtain ⟨pieces, isCut, isText⟩ := exists_pieces text.toList
  rw [cut, ← isText, cutFrom_pieces isCut] at member
  have isKind : lexeme.kind ∈ pieces.filterMap Piece.kind? := by
    rw [← Piece.place_kinds 0]
    exact List.mem_map_of_mem member
  obtain ⟨piece, inPieces, isPiece⟩ := List.mem_filterMap.mp isKind
  have valid := isCut.valid piece inPieces
  rw [opens] at isPiece
  cases piece with
  | call text =>
      obtain rfl := LexemeKind.functionStart.inj (Option.some.inj isPiece)
      rw [String.toList_ofList]
      exact valid
  | blank _ | word _ | operator _ | separator | bracketOpen | bracketClose =>
      simp [Piece.kind?] at isPiece

end Lexeme

end ImageFormula
