import ImageFormula.Proofs.Lexemes
import ImageFormula.Proofs.Literals
import ImageFormula.Proofs.Renaming

/-!
# The case of letters

Two texts with the same letters have the same equation, as long as their image names are the same
(`Limits.compile_recased`). Each stage either does not look at the case of letters or puts them into
lower case itself:

* **cutting**: a text in lower case is cut into the lexemes of the text in lower case, in the same
  places (`Lexeme.cut_lower`);
* **words**: literals and constants have their value in any case (`Scope.wordValue?_of_lower_eq`);
* **calls**: the name of a call is kept as it was written until the call is closed, and lowered then
  (`derives_lower_iff`).
-/

namespace ImageFormula

/-! ## Characters -/

theorem map_toLower_eq_cons {text more : List Char} {d : Char} (low : d.toNat < 65) :
    text.map Char.toLower = d :: more ↔
      ∃ rest, text = d :: rest ∧ rest.map Char.toLower = more := by
  rw [List.map_eq_cons_iff]
  constructor
  · rintro ⟨c, rest, rfl, isLower, isRest⟩
    exact ⟨rest, by rw [(toLower_eq_iff low).mp isLower], isRest⟩
  · rintro ⟨rest, rfl, isRest⟩
    exact ⟨d, rest, rfl, toLower_of_lt low, isRest⟩

theorem Text.lower_ofList (chars : List Char) :
    Text.lower (String.ofList chars) = String.ofList (chars.map Char.toLower) := by
  rw [Text.lower, String.toList_ofList]

/-! ## Cutting -/

/-- The kind of a lexeme with its letters in lower case. -/
def LexemeKind.lower : LexemeKind → LexemeKind
  | word text => word (Text.lower text)
  | functionStart name => functionStart (Text.lower name)
  | kind => kind

namespace Lexeme

/-- The lexeme with its letters in lower case, in the same place. -/
def lower (lexeme : Lexeme) : Lexeme := ⟨lexeme.kind.lower, lexeme.span⟩

theorem heldWord_lower (position : Nat) (held : List Char) :
    heldWord position (held.map Char.toLower) = (heldWord position held).map lower := by
  unfold heldWord
  cases held with
  | nil => rfl
  | cons c held =>
      simp only [List.isEmpty_map, List.isEmpty_cons, Bool.false_eq_true, if_false, List.length_map,
        List.map_reverse, List.map_singleton, lower, LexemeKind.lower, Text.lower_ofList]

/-- Which characters are held, and where they are cut off, does not depend on their case. -/
theorem cutFrom_lower (position : Nat) (held text : List Char) :
    cutFrom position (held.map Char.toLower) (text.map Char.toLower) =
      (cutFrom position held text).map lower := by
  induction text generalizing position held with
  | nil => exact heldWord_lower position held
  | cons c rest ih =>
      have keep := ih (position + 1) (c :: held)
      have drop := ih (position + 1) []
      rw [List.map_cons] at keep ⊢
      rw [List.map_nil] at drop
      simp only [cutFrom, Mark.ofChar_toLower, expectsExponent_lower, heldWord_lower,
        List.isEmpty_map, List.length_map, keep, drop]
      cases Mark.ofChar c with
      | operator op =>
          simp only
          split
          · rfl
          · simp [lower, LexemeKind.lower]
      | bracketOpen =>
          simp only
          split
          · rfl
          · simp [lower, LexemeKind.lower, Text.lower_ofList]
      | separator | bracketClose | blank | letter => simp [lower, LexemeKind.lower]

theorem cut_lower (text : String) : cut (Text.lower text) = (cut text).map lower := by
  rw [cut, Text.toList_lower]
  exact cutFrom_lower 0 [] text.toList

end Lexeme

/-! ## Words -/

namespace Decimal

theorem isDigit_comp_toLower : Char.isDigit ∘ Char.toLower = Char.isDigit := funext isDigit_toLower

/-- Digits have no case, so those at the start of a text end in the same place. -/
theorem span_lower (text : List Char) :
    (text.map Char.toLower).span Char.isDigit =
      ((text.span Char.isDigit).1, (text.span Char.isDigit).2.map Char.toLower) := by
  simp only [List.span_eq_takeWhile_dropWhile, List.takeWhile_map, List.dropWhile_map,
    isDigit_comp_toLower]
  rw [map_toLower_of_digits]
  exact fun c member => List.all_eq_true.mp List.all_takeWhile c member

theorem digits?_lower (text : List Char) : digits? (text.map Char.toLower) = digits? text := by
  unfold digits?
  rw [List.isEmpty_map, List.all_map, isDigit_comp_toLower]
  split
  · rename_i allDigits
    rw [Bool.and_eq_true, List.all_eq_true] at allDigits
    rw [map_toLower_of_digits allDigits.2]
  · rfl

theorem exponent?_lower (text : List Char) :
    exponent? (text.map Char.toLower) = exponent? text := by
  cases text with
  | nil => rfl
  | cons mark text =>
      rw [List.map_cons, exponent?.eq_def, exponent?.eq_def (mark :: text)]
      simp only [isExponentMark_toLower]
      split
      · split
        · rename_i more isText
          obtain ⟨rest, rfl, rfl⟩ := (map_toLower_eq_cons (by decide)).mp isText
          simp only [digits?_lower]
        · rename_i more isText
          obtain ⟨rest, rfl, rfl⟩ := (map_toLower_eq_cons (by decide)).mp isText
          simp only [digits?_lower]
        · rename_i noMinus noPlus
          split
          · exact absurd rfl (noMinus _)
          · exact absurd rfl (noPlus _)
          · rw [digits?_lower]
      · rfl

theorem parse?_lower (text : List Char) : parse? (text.map Char.toLower) = parse? text := by
  simp only [parse?, span_lower]
  obtain ⟨whole, rest⟩ := text.span Char.isDigit
  by_cases point : ∃ more, rest = '.' :: more
  · obtain ⟨more, rfl⟩ := point
    have isLower : ('.' :: more).map Char.toLower = '.' :: more.map Char.toLower :=
      (map_toLower_eq_cons (by decide)).mpr ⟨more, rfl, rfl⟩
    simp only [isLower, span_lower, exponent?_lower]
  · have noPoint (more : List Char) (isRest : rest = '.' :: more) : False := point ⟨more, isRest⟩
    have noPoint' (more : List Char) (isRest : rest.map Char.toLower = '.' :: more) : False := by
      obtain ⟨more', isRest, -⟩ := (map_toLower_eq_cons (by decide)).mp isRest
      exact point ⟨more', isRest⟩
    simp only [exponent?_lower]

end Decimal

theorem constant?_of_lower_eq {name name' : String} (same : Text.lower name' = Text.lower name) :
    constant? name' = constant? name := by
  rw [constant?, constant?, same]

namespace Scope

/-- A word that is no image has its value in any case. -/
theorem wordValue?_of_lower_eq {bound : Nat} {word word' : String} {value : Binary32}
    (isValue : wordValue? bound word = some (.number value))
    (same : Text.lower word' = Text.lower word) :
    wordValue? bound word' = some (.number value) := by
  have chars : word'.toList.map Char.toLower = word.toList.map Char.toLower := by
    rw [← Text.toList_lower, same, Text.toList_lower]
  have decimal : Decimal.parse? word'.toList = Decimal.parse? word.toList := by
    rw [← Decimal.parse?_lower, chars, Decimal.parse?_lower]
  unfold wordValue? at isValue ⊢
  rw [decimal]
  cases isWord : word.toList with
  | nil => simp [isWord] at isValue
  | cons first rest =>
      rw [isWord, List.map_cons] at chars
      obtain ⟨first', rest', isWord', isFirst, -⟩ := List.map_eq_cons_iff.mp chars
      have alpha : first'.isAlpha = first.isAlpha := by
        rw [← Char.isAlpha_toLower_eq_isAlpha, isFirst, Char.isAlpha_toLower_eq_isAlpha]
      simp only [isWord, isWord', alpha] at isValue ⊢
      split at isValue
      · rename_i isAlpha
        rw [if_pos isAlpha]
        unfold imageValue? at isValue ⊢
        rw [constant?_of_lower_eq same]
        split at isValue
        · exact isValue
        · split at isValue
          · obtain ⟨slot, -, isImage⟩ := Option.map_eq_some_iff.mp isValue
            contradiction
          · contradiction
      · rename_i notAlpha
        rwa [if_neg notAlpha]

end Scope

/-! ## Calls -/

/-- The kind of a token with the name of a call in lower case. -/
def TokenKind.lower : TokenKind → TokenKind
  | functionStart name => functionStart (Text.lower name)
  | kind => kind

def Token.lower (token : Token) : Token := { token with kind := token.kind.lower }

/-- The open bracket with the name of its call in lower case. -/
def Frame.lower (frame : Frame) : Frame :=
  { frame with call := frame.call.map fun (name, span) => (Text.lower name, span) }

/-- A bracket lowers the name of its call when it is closed, so it may be lowered before. -/
theorem Frame.value?_lower (frame : Frame) (inside : Pending) :
    frame.lower.value? inside = frame.value? inside := by
  obtain ⟨outer, _ | ⟨name, span⟩, args⟩ := frame
  · rfl
  · simp only [value?, lower, Option.map_some]
    cases inside.phase <;> simp only [Text.lower_lower]

namespace Reading

def lower (r : Reading) : Reading := ⟨r.frames.map Frame.lower, r.top⟩

theorem operand?_lower (r : Reading) (expr : Expr) :
    r.lower.operand? expr = (r.operand? expr).map lower := by
  simp only [operand?, lower]
  cases r.top.operand? expr <;> rfl

theorem open?_lower (r : Reading) (call : Option (String × Span)) :
    r.lower.open? (call.map fun (name, span) => (Text.lower name, span)) =
      (r.open? call).map lower := by
  simp only [open?, lower]
  cases r.top.phase <;> rfl

theorem separate?_lower (r : Reading) : r.lower.separate? = r.separate?.map lower := by
  obtain ⟨_ | ⟨⟨outer, _ | call, args⟩, frames⟩, top⟩ := r
  · rfl
  · rfl
  · simp only [separate?, lower, Frame.lower, List.map_cons, Option.map_some]
    cases top.phase <;> rfl

theorem close?_lower (r : Reading) : r.lower.close? = r.close?.map lower := by
  obtain ⟨_ | ⟨frame, frames⟩, top⟩ := r
  · rfl
  · simp only [close?, lower, List.map_cons, Frame.value?_lower]
    cases frame.value? top with
    | none => rfl
    | some expr => exact operand?_lower ⟨frames, frame.outer⟩ expr

theorem next?_lower (r : Reading) (token : Token) :
    r.lower.next? token.lower = (r.next? token).map lower := by
  simp only [next?, Token.lower]
  cases token.kind with
  | value expr => exact operand?_lower r expr
  | operator op =>
      simp only [TokenKind.lower, lower]
      cases r.top.operator? op <;> rfl
  | bracketOpen => exact open?_lower r none
  | functionStart name => exact open?_lower r (some (name, token.span))
  | separator => exact separate?_lower r
  | bracketClose => exact close?_lower r

theorem result?_lower (r : Reading) : r.lower.result? = r.result? := by
  obtain ⟨_ | ⟨frame, frames⟩, top⟩ := r
  · rfl
  · simp only [result?, lower, List.map_cons]

theorem read_lower (r : Reading) (tokens : List Token) :
    r.lower.read (tokens.map Token.lower) = r.read tokens := by
  induction tokens generalizing r with
  | nil => exact result?_lower r
  | cons token tokens ih =>
      rw [List.map_cons, read_cons, read_cons, next?_lower]
      cases r.next? token with
      | none => rfl
      | some next => exact ih next

end Reading

/-- The tree of a token sequence does not depend on the case of the names in it. -/
theorem derives_lower_iff {tokens : List Token} {expr : Expr} :
    Derives .sum (tokens.map Token.lower) expr ↔ Derives .sum tokens expr := by
  rw [derives_sum_iff_read, derives_sum_iff_read, ← Reading.read_lower .start tokens]
  rfl

/-! ## Formulas -/

theorem LexemeKind.exists_word_of_lower {kind : LexemeKind} {text : String}
    (isLower : kind.lower = .word text) : ∃ word, kind = .word word ∧ Text.lower word = text := by
  cases kind with
  | word word => exact ⟨word, rfl, LexemeKind.word.inj isLower⟩
  | operator | bracketOpen | bracketClose | separator | functionStart =>
      simp [LexemeKind.lower] at isLower

theorem LexemeKind.exists_name_of_lower {kind : LexemeKind} {text : String}
    (isLower : kind.lower = .functionStart text) :
    ∃ name, kind = .functionStart name ∧ Text.lower name = text := by
  cases kind with
  | functionStart name => exact ⟨name, rfl, LexemeKind.functionStart.inj isLower⟩
  | word | operator | bracketOpen | bracketClose | separator =>
      simp [LexemeKind.lower] at isLower

namespace Lexeme

variable {bound : Nat} {text text' : String}

/-- In other letters a lexeme reads as the same token, apart from the letters of a name. -/
theorem Reads.recased {lexeme lexeme' : Lexeme} {token : Token} (reads : Reads bound lexeme token)
    (inCut : lexeme ∈ cut text) (inCut' : lexeme' ∈ cut text') (same : lexeme'.lower = lexeme.lower)
    (kept : ∀ slot, token.kind = .value (.image slot) →
      token.span.chars text'.toList = token.span.chars text.toList) :
    ∃ token', Reads bound lexeme' token' ∧ token'.lower = token.lower := by
  obtain ⟨kind, isKind, rfl⟩ := reads
  obtain ⟨sameKind, sameSpan⟩ : lexeme'.kind.lower = lexeme.kind.lower ∧
      lexeme'.span = lexeme.span := Lexeme.mk.inj same
  cases isLexeme : lexeme.kind with
  | word word =>
      rw [isLexeme] at isKind sameKind
      obtain ⟨expr, value, rfl⟩ := Option.map_eq_some_iff.mp isKind
      obtain ⟨word', isLexeme', sameWord⟩ := LexemeKind.exists_word_of_lower sameKind
      have value' : Scope.wordValue? bound word' = some expr := by
        rcases Scope.image_or_number_of_wordValue? value with ⟨slot, rfl, -⟩ | ⟨number, rfl⟩
        · -- the name of an image is kept, so both texts have the same word here
          have chars : lexeme.span.chars text'.toList = lexeme.span.chars text.toList :=
            kept slot rfl
          rw [chars_of_word inCut isLexeme, ← sameSpan, chars_of_word inCut' isLexeme'] at chars
          rwa [String.toList_inj.mp chars]
        · exact Scope.wordValue?_of_lower_eq value sameWord
      refine ⟨Token.ofKind (.value expr) lexeme'.span, ⟨_, ?_, rfl⟩, by rw [sameSpan]⟩
      rw [isLexeme', LexemeKind.token?, value', Option.map_some]
  | functionStart name =>
      rw [isLexeme] at isKind sameKind
      obtain rfl := Option.some.inj isKind
      obtain ⟨name', isLexeme', sameName⟩ := LexemeKind.exists_name_of_lower sameKind
      refine ⟨Token.ofKind (.functionStart name') lexeme'.span, ⟨_, ?_, rfl⟩, ?_⟩
      · rw [isLexeme', LexemeKind.token?]
      · simp [Token.lower, Token.ofKind, TokenKind.lower, sameName, sameSpan]
  | operator op | bracketOpen | bracketClose | separator =>
      have unchanged : lexeme'.kind = lexeme.kind := by
        cases isLexeme' : lexeme'.kind <;> simp_all [LexemeKind.lower]
      exact ⟨Token.ofKind kind lexeme'.span, ⟨kind, by rwa [unchanged], rfl⟩, by rw [sameSpan]⟩

theorem exists_recased {lexemes lexemes' : List Lexeme} {tokens : List Token}
    (reads : List.Forall₂ (Reads bound) lexemes tokens)
    (inCut : ∀ lexeme ∈ lexemes, lexeme ∈ cut text)
    (inCut' : ∀ lexeme ∈ lexemes', lexeme ∈ cut text')
    (same : lexemes'.map lower = lexemes.map lower)
    (kept : ∀ token ∈ tokens, ∀ slot, token.kind = .value (.image slot) →
      token.span.chars text'.toList = token.span.chars text.toList) :
    ∃ tokens', List.Forall₂ (Reads bound) lexemes' tokens' ∧
      tokens'.map Token.lower = tokens.map Token.lower := by
  induction reads generalizing lexemes' with
  | nil =>
      obtain rfl := List.map_eq_nil_iff.mp same
      exact ⟨[], .nil, rfl⟩
  | cons first _ ih =>
      obtain ⟨lexeme', rest', rfl, sameFirst, sameRest⟩ := List.map_eq_cons_iff.mp same
      rw [List.forall_mem_cons] at inCut inCut' kept
      obtain ⟨token', reads', isToken⟩ := first.recased inCut.1 inCut'.1 sameFirst kept.1
      obtain ⟨tokens', readsRest, areTokens⟩ := ih inCut.2 inCut'.2 sameRest kept.2
      exact ⟨token' :: tokens', .cons reads' readsRest, by simp [isToken, areTokens]⟩

end Lexeme

/-- A text that compiles has the same equation in other letters, image names apart. -/
theorem Limits.compile_recased {limits : Limits} {text text' : String} {equation : Equation}
    {tokens : List Token} {after : Scope} (compiled : limits.compile text = .ok equation)
    (read : limits.scope.tokens text = (.ok tokens, after))
    (letters : Text.sameLetters text text' = true)
    (kept : ∀ token ∈ tokens, ∀ slot, token.kind = .value (.image slot) →
      token.span.chars text'.toList = token.span.chars text.toList) :
    limits.compile text' = .ok equation := by
  obtain ⟨-, reads, -⟩ := Scope.tokens_eq_ok_iff.mp read
  have sameText : Text.lower text' = Text.lower text := (beq_iff_eq.mp letters).symm
  have same : (Lexeme.cut text').map Lexeme.lower = (Lexeme.cut text).map Lexeme.lower := by
    rw [← Lexeme.cut_lower, sameText, Lexeme.cut_lower]
  obtain ⟨tokens', reads', sameTokens⟩ :=
    Lexeme.exists_recased reads (fun _ => id) (fun _ => id) same kept
  obtain ⟨derives, low, isUsage⟩ := (compile_eq_ok_iff_of_reads reads).mp compiled
  refine (compile_eq_ok_iff_of_reads reads').mpr ⟨?_, ?_, isUsage⟩
  · rwa [← derives_lower_iff, sameTokens, derives_lower_iff]
  · have sameLength : tokens'.length = tokens.length := by
      simpa using congrArg List.length sameTokens
    rwa [sameLength]

/-- In `MAX(I0,1E+0)-Pi` a name, the mark of an exponent and a constant change their case. -/
theorem Limits.compile_recased_max :
    let text := "MAX(I0,1E+0)-Pi"
    let text' := "mAx(I0,1e+0)-pI"
    let equation : Equation :=
      ⟨.binary (.binaryCall "max" (.image 0) (.number .one) ⟨0, 4⟩) .sub (.number .pi),
        ⟨some 0, some 0, some 0, [0]⟩⟩
    default.compile text = .ok equation ∧ Text.sameLetters text text' = true ∧
      default.compile text' = .ok equation := by
  intro text text' equation
  have compiled : default.compile text = .ok equation := by decide +kernel
  have letters : Text.sameLetters text text' = true := by decide +kernel
  have read : default.scope.tokens text =
      (.ok [.ofKind (.functionStart "MAX") ⟨0, 4⟩, .ofKind (.value (.image 0)) ⟨4, 6⟩,
        .ofKind .separator ⟨6, 7⟩, .ofKind (.value (.number .one)) ⟨7, 11⟩,
        .ofKind .bracketClose ⟨11, 12⟩, .ofKind (.operator .sub) ⟨12, 13⟩,
        .ofKind (.value (.number .pi)) ⟨13, 15⟩], .images 16 equation.usage) := by decide +kernel
  refine ⟨compiled, letters, compile_recased compiled read letters ?_⟩
  intro token member slot isImage
  have refers : token.kind.images ≠ [] := by simp [isImage, TokenKind.images, Expr.images]
  clear isImage
  revert token
  decide +kernel

end ImageFormula
