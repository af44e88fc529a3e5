import ImageFormula.Proofs.Lexemes
import ImageFormula.Proofs.Literals

/-!
# White space between tokens

The white space of a formula stands before its tokens and after the last one, and any other white
space may stand there instead. It can be left out except behind a value, where a word, a name of a
call or an opening bracket would run together with it. A sign never does: no word that is read as a
value waits for an exponent (`Scope.not_expectsExponent`). The main statement is
`Scope.tokens_spaced`.
-/

namespace ImageFormula

/-! ## Blanks -/

theorem Mark.ofChar_eq_blank {c : Char} : Mark.ofChar c = .blank ↔ Text.isBlank c = true := by
  constructor
  · intro isBlank
    unfold Mark.ofChar at isBlank
    repeat' split at isBlank
    all_goals first | contradiction | assumption
  · intro isBlank
    have other (d : Char) (notBlank : Text.isBlank d = false) : c ≠ d := by
      rintro rfl
      rw [isBlank] at notBlank
      contradiction
    have notOperator : Operator.ofChar? c = none := by
      unfold Operator.ofChar?
      split
      case h_6 => rfl
      all_goals exact absurd rfl (other _ (by decide))
    simp [Mark.ofChar, notOperator, isBlank, other ',' (by decide), other '(' (by decide),
      other ')' (by decide)]

/-- No blank is held in a word. -/
theorem Lexeme.Held.not_blank {held : List Char} (isHeld : Held held) :
    ∀ c ∈ held, Mark.ofChar c ≠ .blank := by
  induction isHeld with
  | nil => simp
  | letter isLetter _ ih => exact List.forall_mem_cons.mpr ⟨by simp [isLetter], ih⟩
  | sign operates _ _ _ ih => exact List.forall_mem_cons.mpr ⟨by simp [operates], ih⟩

/-- White space, or nothing. -/
def IsGap (gap : List Char) : Prop := ∀ c ∈ gap, Text.isBlank c = true

instance (gap : List Char) : Decidable (IsGap gap) := List.decidableBAll _ gap

/-- There is white space at the start. -/
def StartsBlank (text : List Char) : Prop := ∃ c ∈ text.head?, Text.isBlank c = true

instance : (text : List Char) → Decidable (StartsBlank text)
  | [] => isFalse (by simp [StartsBlank])
  | c :: _ => decidable_of_iff (Text.isBlank c = true) (by simp [StartsBlank])

theorem IsWord.not_startsBlank {word : List Char} (isWord : IsWord word) (rest : List Char) :
    ¬ StartsBlank (word ++ rest) := by
  rintro ⟨c, isFirst, isBlank⟩
  cases word with
  | nil => exact isWord.nonempty rfl
  | cons first word =>
      obtain rfl := Option.some.inj isFirst
      exact isWord.held.not_blank first (by simp) (Mark.ofChar_eq_blank.mpr isBlank)

/-! ## Values do not wait for an exponent -/

namespace Decimal

theorem ends_of_digits? {text : List Char} {n : Nat} (isNumber : digits? text = some n) :
    ∃ init last, text = init ++ [last] ∧ last.isDigit = true :=
  IsNumeral.last_digit (digits?_eq_some_iff.mp isNumber).1

/-- An exponent ends in a digit. -/
theorem ends_of_exponent? {text : List Char} {exponent : Int}
    (isExponent : exponent? text = some exponent) :
    text = [] ∨ ∃ init last, text = init ++ [last] ∧ last.isDigit = true := by
  cases text with
  | nil => exact .inl rfl
  | cons mark text =>
      right
      have longer (front : List Char) {digits : List Char} {n : Nat}
          (isNumber : digits? digits = some n) :
          ∃ init last, front ++ digits = init ++ [last] ∧ last.isDigit = true := by
        obtain ⟨init, last, rfl, isDigit⟩ := ends_of_digits? isNumber
        exact ⟨front ++ init, last, by simp, isDigit⟩
      simp only [exponent?] at isExponent
      split at isExponent
      · split at isExponent
        · obtain ⟨_, number, -⟩ := Option.map_eq_some_iff.mp isExponent
          obtain ⟨n, isNumber, -⟩ := Option.bind_eq_some_iff.mp number
          exact longer [mark, '-'] isNumber
        · obtain ⟨n, isNumber, -⟩ := Option.map_eq_some_iff.mp isExponent
          exact longer [mark, '+'] isNumber
        · obtain ⟨n, isNumber, -⟩ := Option.map_eq_some_iff.mp isExponent
          exact longer [mark] isNumber
      · contradiction

theorem takeWhile_isDigit_ends {text : List Char} (nonempty : text.takeWhile Char.isDigit ≠ []) :
    ∃ init last, text.takeWhile Char.isDigit = init ++ [last] ∧ last.isDigit = true :=
  IsNumeral.last_digit ⟨nonempty, fun _ => List.all_eq_true.mp List.all_takeWhile _⟩

/-- Before the exponent of a literal there is a digit or a point. -/
theorem split_of_parse? {text : List Char} {decimal : Decimal}
    (parsed : parse? text = some decimal) :
    ∃ init last rest exponent, text = init ++ last :: rest ∧
      (last.isDigit = true ∨ last = '.') ∧ exponent? rest = some exponent := by
  have split (text : List Char) :
      text = text.takeWhile Char.isDigit ++ text.dropWhile Char.isDigit :=
    List.takeWhile_append_dropWhile.symm
  simp only [parse?, List.span_eq_takeWhile_dropWhile] at parsed
  split at parsed
  · rename_i more isRest
    simp only [ite_eq_iff', reduceCtorEq, imp_false] at parsed
    obtain ⟨exponent, isExponent, -⟩ := Option.map_eq_some_iff.mp (parsed.2 parsed.1)
    have isText := split text
    rw [isRest, split more] at isText
    by_cases noDigits : more.takeWhile Char.isDigit = []
    · -- the point is the last character
      refine ⟨text.takeWhile Char.isDigit, '.', _, exponent, ?_, .inr rfl, isExponent⟩
      rwa [noDigits] at isText
    · obtain ⟨init, last, isPart, isDigit⟩ := takeWhile_isDigit_ends noDigits
      refine ⟨text.takeWhile Char.isDigit ++ '.' :: init, last, _, exponent, ?_, .inl isDigit,
        isExponent⟩
      rw [isPart] at isText
      simpa using isText
  · simp only [ite_eq_iff', reduceCtorEq, imp_false] at parsed
    obtain ⟨exponent, isExponent, -⟩ := Option.map_eq_some_iff.mp (parsed.2 parsed.1)
    have someDigits : text.takeWhile Char.isDigit ≠ [] := by simpa using parsed.1
    obtain ⟨init, last, isWhole, isDigit⟩ := takeWhile_isDigit_ends someDigits
    refine ⟨init, last, _, exponent, ?_, .inl isDigit, isExponent⟩
    have isText := split text
    rw [isWhole] at isText
    simpa using isText

/-- A literal ends in a digit or a point. -/
theorem ends_of_parse? {text : List Char} {decimal : Decimal}
    (parsed : parse? text = some decimal) :
    ∃ init last, text = init ++ [last] ∧ (last.isDigit = true ∨ last = '.') := by
  obtain ⟨init, last, rest, exponent, rfl, isLast, isExponent⟩ := split_of_parse? parsed
  rcases ends_of_exponent? isExponent with rfl | ⟨front, final, rfl, isDigit⟩
  · exact ⟨init, last, rfl, isLast⟩
  · exact ⟨init ++ last :: front, final, by simp, .inl isDigit⟩

end Decimal

/-- A word that is read as a value does not wait for an exponent. -/
theorem Scope.not_expectsExponent {bound : Nat} {word : List Char} {expr : Expr}
    (value : wordValue? bound (String.ofList word) = some expr) :
    Lexeme.expectsExponent word.reverse = false := by
  cases expects : Lexeme.expectsExponent word.reverse with
  | false => rfl
  | true =>
      obtain ⟨first, rest, rfl, isFirst⟩ := first_of_expectsExponent expects
      have notAlpha : first.isAlpha = false := by
        rcases isFirst with isDigit | rfl
        · exact not_isAlpha_of_isDigit isDigit
        · decide
      simp only [wordValue?, String.toList_ofList, notAlpha] at value
      obtain ⟨decimal, parsed, -⟩ := Option.map_eq_some_iff.mp value
      obtain ⟨init, last, isWord, isLast⟩ := Decimal.ends_of_parse? parsed
      rw [isWord, List.reverse_append] at expects
      cases before : init.reverse with
      | nil => simp [before, Lexeme.expectsExponent] at expects
      | cons digit more =>
          simp only [before, List.reverse_singleton, List.singleton_append, Lexeme.expectsExponent,
            Bool.and_eq_true, Bool.or_eq_true, beq_iff_eq] at expects
          rcases expects.1.1 with rfl | rfl <;> simp at isLast

/-! ## Tokens with white space between them -/

/-- Whether a token would run together with a value before it. -/
def Token.Continues (token : Token) : Prop :=
  token.tokenClass = .value ∨ token.tokenClass = .functionStart ∨ token.tokenClass = .bracketOpen

/-- Whether there must be white space between two tokens. -/
def Token.NeedsBlank (token next : Token) : Prop := token.tokenClass = .value ∧ next.Continues

instance (token next : Token) : Decidable (token.NeedsBlank next) :=
  inferInstanceAs (Decidable (_ ∧ (_ ∨ _ ∨ _)))

/-- `Spaced text tokens result`: the result is the tokens as they are written in the text, with any
white space before, between and behind them, and some of it wherever it is needed. -/
inductive Spaced (text : List Char) : List Token → List Char → Prop
  | finish {gap : List Char} (isGap : IsGap gap) : Spaced text [] gap
  | token {gap rest : List Char} {token : Token} {tokens : List Token} (isGap : IsGap gap)
      (apart : ∀ next ∈ tokens.head?, token.NeedsBlank next → StartsBlank rest)
      (spaced : Spaced text tokens rest) :
      Spaced text (token :: tokens) (gap ++ (token.span.chars text ++ rest))

/-- The tokens as they are written in the text, with a single blank wherever one is needed. -/
def closeUp (text : List Char) : List Token → List Char
  | [] => []
  | [token] => token.span.chars text
  | token :: next :: tokens =>
    token.span.chars text ++
      ((if token.NeedsBlank next then [' '] else []) ++ closeUp text (next :: tokens))

theorem Spaced.blanks {text gap result : List Char} {tokens : List Token} (isGap : IsGap gap)
    (spaced : Spaced text tokens result) : Spaced text tokens (gap ++ result) := by
  have both {gap' : List Char} (isGap' : IsGap gap') : IsGap (gap ++ gap') :=
    fun c member => (List.mem_append.mp member).elim (isGap c) (isGap' c)
  cases spaced with
  | finish isGap' => exact .finish (both isGap')
  | token isGap' apart spaced =>
      rw [← List.append_assoc]
      exact .token (both isGap') apart spaced

theorem spaced_closeUp (text : List Char) (tokens : List Token) :
    Spaced text tokens (closeUp text tokens) := by
  have noGap : IsGap [] := by simp [IsGap]
  fun_induction closeUp text tokens with
  | case1 => exact .finish noGap
  | case2 token =>
      have apart : ∀ next ∈ ([] : List Token).head?, token.NeedsBlank next → StartsBlank [] := by
        simp
      simpa using Spaced.token noGap apart (.finish noGap)
  | case3 token next tokens ih =>
      have oneBlank : IsGap (if token.NeedsBlank next then [' '] else []) := by
        split
        · simp [IsGap]; decide
        · exact noGap
      refine @Spaced.token text [] _ token _ noGap ?_ (ih.blanks oneBlank)
      intro next' isNext needs
      obtain rfl := Option.some.inj isNext
      exact ⟨' ', by simp [needs], by decide⟩

/-! ## Respaced texts -/

/-- A token of a text is written by a piece, which is read as the token. -/
structure Piece.Writes (bound : Nat) (text : List Char) (piece : Piece) (token : Token) : Prop where
  valid : piece.Valid
  chars : token.span.chars text = piece.chars
  reads : ∃ kind, piece.kind? = some kind ∧ kind.token? bound = some token.kind

namespace Piece

variable {bound : Nat} {text : List Char} {token : Token} {piece : Piece}

/-- The token of a word is a value, and such a word does not wait for an exponent. -/
theorem Writes.value_of_word {chars : List Char} (writes : (word chars).Writes bound text token) :
    token.tokenClass = .value ∧ Lexeme.expectsExponent chars.reverse = false := by
  obtain ⟨kind, isKind, isToken⟩ := writes.reads
  obtain rfl := Option.some.inj isKind
  obtain ⟨expr, value, isValue⟩ := Option.map_eq_some_iff.mp isToken
  exact ⟨by rw [Token.tokenClass, ← isValue]; rfl, Scope.not_expectsExponent value⟩

theorem Writes.word_of_value (writes : piece.Writes bound text token)
    (isValue : token.tokenClass = .value) : ∃ chars, piece = word chars := by
  obtain ⟨expr, isValue⟩ := Token.holds_of_class isValue
  obtain ⟨kind, isKind, isToken⟩ := writes.reads
  rw [isValue] at isToken
  cases piece with
  | word chars => exact ⟨chars, rfl⟩
  | blank => cases isKind
  | operator | separator | bracketOpen | bracketClose | call =>
      obtain rfl := Option.some.inj isKind
      cases isToken

/-- A piece ends a value before it exactly if its token does not run together with the value. -/
theorem Writes.ends_iff {chars : List Char} (writes : piece.Writes bound text token)
    (complete : Lexeme.expectsExponent chars.reverse = false) :
    piece.Ends chars ↔ ¬ token.Continues := by
  obtain ⟨kind, isKind, isToken⟩ := writes.reads
  cases piece with
  | blank => cases isKind
  | word => simp [Ends, Token.Continues, writes.value_of_word.1]
  | operator op =>
      obtain rfl := Option.some.inj isKind
      have isKind := Option.some.inj isToken
      cases op <;> simp [Ends, complete, Token.Continues, Token.tokenClass, ← isKind,
        TokenKind.tokenClass, Operator.tokenClass]
  | separator | bracketOpen | bracketClose | call =>
      obtain rfl := Option.some.inj isKind
      have isKind := Option.some.inj isToken
      simp [Ends, Token.Continues, Token.tokenClass, ← isKind, TokenKind.tokenClass]

theorem Writes.not_startsBlank (writes : piece.Writes bound text token) (rest : List Char) :
    ¬ StartsBlank (piece.chars ++ rest) := by
  obtain ⟨kind, isKind, -⟩ := writes.reads
  have valid := writes.valid
  cases piece with
  | blank => cases isKind
  | word chars => exact IsWord.not_startsBlank valid rest
  | call name =>
      rw [Piece.chars, List.append_assoc]
      exact IsWord.not_startsBlank valid (['('] ++ rest)
  | operator op => cases op <;> simp [StartsBlank, Piece.chars] <;> decide
  | separator | bracketOpen | bracketClose => simp [StartsBlank, Piece.chars]; decide

end Piece

theorem Piece.eq_blank {piece : Piece} (noLexeme : piece.kind? = none) :
    ∃ c, piece = blank c := by
  cases piece with
  | blank c => exact ⟨c, rfl⟩
  | word | operator | separator | bracketOpen | bracketClose | call => cases noLexeme

section Respacing

variable {bound : Nat} {text result : List Char} {tokens : List Token} {pieces : List Piece}

/-- The tokens of a text stand in it with white space between them, wherever it is needed. -/
theorem spaced_of_cut (cut : Cut pieces)
    (writes : List.Forall₂ (Piece.Writes bound text)
      (pieces.filter fun piece => piece.kind?.isSome) tokens) :
    Spaced text tokens (Piece.text pieces) := by
  induction cut generalizing tokens with
  | nil =>
      cases writes
      exact .finish (by simp [IsGap])
  | @cons piece pieces valid apart cut ih =>
      rw [Piece.text_cons]
      cases isLexeme : piece.kind? with
      | none =>
          rw [List.filter_cons_of_neg (by simp [isLexeme])] at writes
          obtain ⟨c, rfl⟩ := Piece.eq_blank isLexeme
          have isBlank : Text.isBlank c = true := Mark.ofChar_eq_blank.mp valid
          exact (ih writes).blanks (by simpa [IsGap, Piece.chars] using isBlank)
      | some kind =>
          rw [List.filter_cons_of_pos (by simp [isLexeme])] at writes
          cases writes with
          | @cons _ token _ tokens first writes =>
              rw [← first.chars, ← List.nil_append (token.span.chars text ++ _)]
              refine .token (by simp [IsGap]) ?_ (ih writes)
              rintro next isNext ⟨isValue, continues⟩
              obtain ⟨chars, rfl⟩ := first.word_of_value isValue
              -- the piece behind a value ends it, so it is a blank or the token does not go on
              cases pieces with
              | nil =>
                  cases writes
                  cases isNext
              | cons following pieces =>
                  have ends : following.Ends chars := apart
                  cases isFollowing : following.kind? with
                  | none =>
                      obtain ⟨c, rfl⟩ := Piece.eq_blank isFollowing
                      have isBlank : Mark.ofChar c = .blank := cut.valid _ (.head _)
                      exact ⟨c, rfl, Mark.ofChar_eq_blank.mp isBlank⟩
                  | some kind' =>
                      rw [List.filter_cons_of_pos (by simp [isFollowing])] at writes
                      cases writes with
                      | cons second writes =>
                          obtain rfl := Option.some.inj isNext
                          have complete := first.value_of_word.2
                          exact absurd continues ((second.ends_iff complete).mp ends)

theorem cut_blanks {gap : List Char} (isGap : IsGap gap) (cut : Cut pieces) :
    Cut (gap.map Piece.blank ++ pieces) := by
  induction gap with
  | nil => exact cut
  | cons c gap ih =>
      obtain ⟨isBlank, isGap⟩ := List.forall_mem_cons.mp isGap
      exact .cons (Mark.ofChar_eq_blank.mpr isBlank) trivial (ih isGap)

theorem text_blanks (gap : List Char) : Piece.text (gap.map Piece.blank) = gap := by
  simp [Piece.text, List.flatMap_map, Piece.chars]

theorem kinds_blanks (gap : List Char) :
    (gap.map Piece.blank ++ pieces).filterMap Piece.kind? = pieces.filterMap Piece.kind? := by
  induction gap with
  | nil => rfl
  | cons c gap ih => rw [List.map_cons, List.cons_append, List.filterMap_cons_none rfl, ih]

/-- Tokens with white space between them are cut as they were. The last part is what comes before
them: a word that is complete does not run together with them. -/
theorem exists_pieces_of_spaced {written : List Piece} (spaced : Spaced text tokens result)
    (writes : List.Forall₂ (Piece.Writes bound text) written tokens) :
    ∃ pieces, Cut pieces ∧ Piece.text pieces = result ∧
      pieces.filterMap Piece.kind? = written.filterMap Piece.kind? ∧
      ∀ chars, Lexeme.expectsExponent chars.reverse = false →
        (∀ next ∈ tokens.head?, next.Continues → StartsBlank result) →
        (Piece.word chars).Apart pieces := by
  induction spaced generalizing written with
  | @finish gap isGap =>
      cases writes
      refine ⟨gap.map .blank, ?_, text_blanks gap, ?_, ?_⟩
      · simpa using cut_blanks isGap .nil
      · simpa using @kinds_blanks [] gap
      · intro chars complete apart
        cases gap <;> trivial
  | @token gap rest token tokens isGap apart spaced ih =>
      cases writes with
      | @cons piece _ written _ first writes =>
          obtain ⟨pieces, cut, isText, kinds, separate⟩ := ih writes
          have apart : piece.Apart pieces := by
            cases piece with
            | word chars =>
                obtain ⟨isValue, complete⟩ := first.value_of_word
                exact separate chars complete fun next isNext continues =>
                  apart next isNext ⟨isValue, continues⟩
            | blank | operator | separator | bracketOpen | bracketClose | call => trivial
          refine ⟨gap.map .blank ++ piece :: pieces, ?_, ?_, ?_, ?_⟩
          · exact cut_blanks isGap (.cons first.valid apart cut)
          · rw [Piece.text_append, text_blanks, Piece.text_cons, isText, first.chars]
          · rw [kinds_blanks, List.filterMap_cons, List.filterMap_cons, kinds]
          · intro chars complete startsBlank
            cases gap with
            | cons c gap => trivial
            | nil =>
                rw [List.nil_append, first.chars] at startsBlank
                refine (first.ends_iff complete).mpr fun continues => ?_
                exact first.not_startsBlank rest (startsBlank token rfl continues)

/-- The pieces of a text write its tokens. -/
theorem writes_of_reads {lexemes : List Lexeme}
    (stands : List.Forall₂ (Lexeme.Stands text) lexemes pieces)
    (reads : List.Forall₂ (Lexeme.Reads bound) lexemes tokens) :
    List.Forall₂ (Piece.Writes bound text) pieces tokens := by
  induction stands generalizing tokens with
  | nil =>
      cases reads
      exact .nil
  | cons first stands ih =>
      cases reads with
      | cons isToken reads =>
          obtain ⟨kind, isKind, rfl⟩ := isToken
          exact .cons ⟨first.valid, first.chars, _, first.kind, isKind⟩ (ih reads)

/-- Pieces that write tokens have the kinds of these tokens. -/
theorem kinds_of_writes (writes : List.Forall₂ (Piece.Writes bound text) pieces tokens) :
    List.Forall₂ (fun kind token => LexemeKind.token? bound kind = some token)
      (pieces.filterMap Piece.kind?) (tokens.map Token.kind) := by
  induction writes with
  | nil => exact .nil
  | cons first _ ih =>
      obtain ⟨kind, isKind, isToken⟩ := first.reads
      rw [List.filterMap_cons_some isKind, List.map_cons]
      exact .cons isToken ih

end Respacing

theorem tokenImages_eq_of_kinds {tokens tokens' : List Token}
    (kinds : tokens'.map Token.kind = tokens.map Token.kind) :
    tokenImages tokens' = tokenImages tokens := by
  have images (tokens : List Token) :
      tokenImages tokens = (tokens.map Token.kind).flatMap TokenKind.images := by
    rw [tokenImages, List.flatMap_map]
  rw [images, images, kinds]

/-- A text with the tokens of a formula and other white space between them is read as the formula
is. -/
theorem Scope.tokens_of_spaced {bound : Nat} {usage : Usage} {text result : String}
    {tokens : List Token} {after : Scope}
    (reads : (images bound usage).tokens text = (.ok tokens, after))
    (spaced : Spaced text.toList tokens result.toList) :
    ∃ tokens', (images bound usage).tokens result = (.ok tokens', after) ∧
      tokens'.map Token.kind = tokens.map Token.kind := by
  obtain ⟨nonempty, isTokens, rfl⟩ := Scope.tokens_eq_ok_iff.mp reads
  obtain ⟨pieces, cut, isText⟩ := Lexeme.exists_pieces text.toList
  have writes := writes_of_reads (Lexeme.cut_stands cut isText) isTokens
  obtain ⟨respaced, cut', isResult, kinds, -⟩ := exists_pieces_of_spaced spaced writes
  have isKinds := kinds_of_writes writes
  rw [← kinds, ← Piece.place_kinds 0, ← Lexeme.cutFrom_pieces cut', isResult] at isKinds
  obtain ⟨tokens', isTokens', sameKinds⟩ := Lexeme.exists_tokens isKinds
  refine ⟨tokens', Scope.tokens_eq_ok_iff.mpr ⟨?_, isTokens', ?_⟩, sameKinds⟩
  · rintro rfl
    exact nonempty (List.map_eq_nil_iff.mp sameKinds.symm)
  · rw [tokenImages_eq_of_kinds sameKinds]

/-- A formula consists of its tokens with white space between them. Other white space may stand in
its place, as long as there is some wherever it is needed, and the kinds of the tokens stay the
same. In particular all white space that is not needed can be left out. -/
theorem Scope.tokens_spaced {bound : Nat} {usage : Usage} {text : String} {tokens : List Token}
    {after : Scope} (reads : (images bound usage).tokens text = (.ok tokens, after)) :
    Spaced text.toList tokens text.toList ∧
    (∀ result : String, Spaced text.toList tokens result.toList →
      ∃ tokens', (images bound usage).tokens result = (.ok tokens', after) ∧
        tokens'.map Token.kind = tokens.map Token.kind) ∧
    ∃ tokens', (images bound usage).tokens (String.ofList (closeUp text.toList tokens)) =
        (.ok tokens', after) ∧
      tokens'.map Token.kind = tokens.map Token.kind := by
  refine ⟨?_, fun result spaced => tokens_of_spaced reads spaced, ?_⟩
  · obtain ⟨-, isTokens, -⟩ := Scope.tokens_eq_ok_iff.mp reads
    obtain ⟨pieces, cut, isText⟩ := Lexeme.exists_pieces text.toList
    have spaced := spaced_of_cut cut (writes_of_reads (Lexeme.cut_stands cut isText) isTokens)
    rwa [isText] at spaced
  · refine tokens_of_spaced reads ?_
    rw [String.toList_ofList]
    exact spaced_closeUp text.toList tokens

/-- In `2e1 - I0 (3)` the blank before the bracket is needed, and those around the sign are not,
since `2e1` waits for no exponent. -/
theorem Scope.tokens_spaced_sign :
    let text := "2e1 - I0 (3)"
    let tokens : List Token := [.ofKind (.value (.number (Decimal.mk 2 1).narrowed)) ⟨0, 3⟩,
      .ofKind (.operator .sub) ⟨4, 5⟩, .ofKind (.value (.image 0)) ⟨6, 8⟩,
      .ofKind .bracketOpen ⟨9, 10⟩,
      .ofKind (.value (.number (Decimal.mk 3 0).narrowed)) ⟨10, 11⟩,
      .ofKind .bracketClose ⟨11, 12⟩]
    let after := Scope.images 1 ⟨some 0, some 0, some 0, [0]⟩
    (Scope.images 1 .empty).tokens text = (.ok tokens, after) ∧
      Spaced text.toList tokens " 2e1-I0\t(3 )".toList ∧
      (∃ tokens', (Scope.images 1 .empty).tokens " 2e1-I0\t(3 )" = (.ok tokens', after) ∧
        tokens'.map Token.kind = tokens.map Token.kind) ∧
      ∃ tokens', (Scope.images 1 .empty).tokens "2e1-I0 (3)" = (.ok tokens', after) ∧
        tokens'.map Token.kind = tokens.map Token.kind := by
  intro text tokens after
  have reads : (Scope.images 1 .empty).tokens text = (.ok tokens, after) := by decide +kernel
  obtain ⟨-, other, closed⟩ := tokens_spaced reads
  have isClosed : String.ofList (closeUp text.toList tokens) = "2e1-I0 (3)" := by decide +kernel
  have isResult : " 2e1-I0\t(3 )".toList = [' '] ++ (Span.chars ⟨0, 3⟩ text.toList ++
      ([] ++ (Span.chars ⟨4, 5⟩ text.toList ++ ([] ++ (Span.chars ⟨6, 8⟩ text.toList ++
      (['\t'] ++ (Span.chars ⟨9, 10⟩ text.toList ++ ([] ++ (Span.chars ⟨10, 11⟩ text.toList ++
      ([' '] ++ (Span.chars ⟨11, 12⟩ text.toList ++ []))))))))))) := by
    decide +kernel
  have spaced : Spaced text.toList tokens " 2e1-I0\t(3 )".toList := by
    rw [isResult]
    exact .token (by decide) (by decide) (.token (by decide) (by decide)
      (.token (by decide) (by decide +kernel) (.token (by decide) (by decide)
        (.token (by decide) (by decide) (.token (by decide) (by decide) (.finish (by decide)))))))
  rw [isClosed] at closed
  exact ⟨reads, spaced, other _ spaced, closed⟩

end ImageFormula
