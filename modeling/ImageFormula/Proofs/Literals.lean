import Mathlib
import ImageFormula.Proofs.Compiling
import ImageFormula.Proofs.Pieces

/-!
# Words that are written

The words of formatted formulas: the literals of finite numbers, the names of images and the names
of calls in lower case. Each is a single word, so it is cut as it was written, and literals and
image names are read back (`ReadsAs`, `wordValue?_imageName`).
-/

namespace ImageFormula

/-! ## Characters -/

/-- The codes of ASCII letters, digits and the point. -/
abbrev IsPlainCode (code : Nat) : Prop :=
  code = 46 ∨ 48 ≤ code ∧ code ≤ 57 ∨ 65 ≤ code ∧ code ≤ 90 ∨ 97 ≤ code ∧ code ≤ 122

theorem Mark.ofChar_plain {c : Char} (plain : IsPlainCode c.toNat) : Mark.ofChar c = .letter := by
  have other (d : Char) (isOther : ¬ IsPlainCode d.toNat) : c ≠ d := by
    rintro rfl
    exact isOther plain
  have notOperator : Operator.ofChar? c = none := by
    unfold Operator.ofChar?
    split
    case h_6 => rfl
    all_goals exact absurd rfl (other _ (by decide))
  have notBlank : Text.isBlank c = false := by
    simp only [Text.isBlank, Text.blankRanges, List.any_cons, List.any_nil]
    unfold IsPlainCode at plain
    simp
    omega
  simp [Mark.ofChar, notOperator, notBlank, other ',' (by decide), other '(' (by decide),
    other ')' (by decide)]

theorem plain_of_isDigit {c : Char} (isDigit : c.isDigit = true) : IsPlainCode c.toNat := by
  have bounds := Char.isDigit_iff_toNat.mp isDigit
  exact .inr (.inl bounds)

/-- Putting a character into lower case changes capital letters only. -/
theorem toLower_cases (c : Char) :
    c.toLower = c ∨ 65 ≤ c.toNat ∧ c.toNat ≤ 90 ∧ c.toLower.toNat = c.toNat + 32 := by
  by_cases capital : c.isUpper = true
  · have bounds : 65 ≤ c.toNat ∧ c.toNat ≤ 90 := by
      unfold Char.isUpper at capital
      simpa [UInt32.le_iff_toNat_le] using capital
    have valid : (c.toNat + 32).isValidChar := .inl (by omega)
    refine .inr ⟨bounds.1, bounds.2, ?_⟩
    rw [Char.toLower_eq_of_isUpper capital, Char.toNat_ofNat, if_pos valid]
  · exact .inl (Char.toLower_eq_of_not_isUpper capital)

theorem Mark.ofChar_toLower (c : Char) : Mark.ofChar c.toLower = Mark.ofChar c := by
  rcases toLower_cases c with same | ⟨low, high, isCode⟩
  · rw [same]
  · rw [Mark.ofChar_plain (by omega), Mark.ofChar_plain (by omega)]

theorem toLower_of_lt {c : Char} (low : c.toNat < 65) : c.toLower = c := by
  rcases toLower_cases c with same | ⟨_, _, _⟩
  · exact same
  · omega

theorem toLower_of_isDigit {c : Char} (isDigit : c.isDigit = true) : c.toLower = c := by
  have bounds := Char.isDigit_iff_toNat.mp isDigit
  exact toLower_of_lt (Nat.lt_of_le_of_lt bounds.2 (by decide))

theorem map_toLower_of_digits {text : List Char} (digits : ∀ c ∈ text, c.isDigit = true) :
    text.map Char.toLower = text :=
  (List.map_congr_left fun c member => toLower_of_isDigit (digits c member)).trans (List.map_id _)

theorem isDigit_toLower (c : Char) : c.toLower.isDigit = c.isDigit := by
  rw [Bool.eq_iff_iff, Char.isDigit_iff_toNat, Char.isDigit_iff_toNat]
  rcases toLower_cases c with same | ⟨low, high, isCode⟩
  · rw [same]
  · have nine : '9'.toNat = 57 := rfl
    omega

/-- A character that is no letter is not the lower case of another one. -/
theorem toLower_eq_iff {c d : Char} (low : d.toNat < 65) : c.toLower = d ↔ c = d := by
  rw [← Char.toNat_inj, ← Char.toNat_inj]
  rcases toLower_cases c with same | ⟨_, _, isCode⟩
  · rw [same]
  · omega

theorem isExponentMark_toLower (c : Char) :
    (c.toLower == 'e' || c.toLower == 'E') = (c == 'e' || c == 'E') := by
  have small : 'e'.toNat = 101 := rfl
  have capital : 'E'.toNat = 69 := rfl
  rw [Bool.eq_iff_iff]
  simp only [Bool.or_eq_true, beq_iff_eq, ← Char.toNat_inj]
  rcases toLower_cases c with same | ⟨_, _, isCode⟩
  · rw [same]
  · omega

theorem Text.toList_lower (text : String) :
    (Text.lower text).toList = text.toList.map Char.toLower :=
  String.toList_ofList

theorem Text.lower_lower (text : String) : Text.lower (Text.lower text) = Text.lower text := by
  unfold Text.lower
  rw [String.toList_ofList, List.map_map]
  exact congrArg String.ofList (List.map_congr_left fun c _ => c.toLower_toLower_eq_toLower)

/-! ## Names in lower case -/

theorem Lexeme.expectsExponent_lower (held : List Char) :
    expectsExponent (held.map Char.toLower) = expectsExponent held := by
  rcases held with _ | ⟨mark, _ | ⟨digit, more⟩⟩
  · rfl
  · rfl
  · simp only [List.map_cons, expectsExponent, isExponentMark_toLower, isDigit_toLower]
    rw [← List.map_cons, List.getLast?_map]
    cases (digit :: more).getLast? with
    | none => rfl
    | some first =>
        have point : (first.toLower == '.') = (first == '.') := by
          rw [Bool.eq_iff_iff, beq_iff_eq, beq_iff_eq, toLower_eq_iff (by decide)]
        simp only [Option.map_some, isDigit_toLower, point]

/-- A word in lower case is a word. -/
theorem Lexeme.Held.map_toLower {held : List Char} (isHeld : Held held) :
    Held (held.map Char.toLower) := by
  induction isHeld with
  | nil => exact .nil
  | letter isLetter _ ih => exact .letter ((Mark.ofChar_toLower _).trans isLetter) ih
  | @sign c op held operates isSign expects _ ih =>
      have same : c.toLower = c := by
        rw [Mark.symbol_of_ofChar operates]
        cases op <;> decide
      rw [List.map_cons, same]
      exact .sign operates isSign ((expectsExponent_lower held).trans expects) ih

theorem IsWord.lower {name : String} (isWord : IsWord name.toList) :
    IsWord (Text.lower name).toList := by
  rw [Text.toList_lower]
  refine ⟨by simpa using isWord.nonempty, ?_⟩
  rw [← List.map_reverse]
  exact isWord.held.map_toLower

/-! ## Names of images -/

/-- Letters can be held after whatever is held. -/
theorem Lexeme.Held.append_plain {text held : List Char} (isHeld : Held held)
    (plain : ∀ c ∈ text, IsPlainCode c.toNat) : Held (text.reverse ++ held) := by
  induction text generalizing held with
  | nil => exact isHeld
  | cons c text ih =>
      rw [List.reverse_cons, List.append_assoc]
      exact ih (.letter (Mark.ofChar_plain (plain c (.head _))) isHeld)
        fun d member => plain d (.tail _ member)

theorem isWord_of_plain {text : List Char} (nonempty : text ≠ [])
    (plain : ∀ c ∈ text, IsPlainCode c.toNat) : IsWord text := by
  refine ⟨nonempty, ?_⟩
  rw [← List.append_nil text.reverse]
  exact Lexeme.Held.nil.append_plain plain

/-- A word that waits for an exponent is the start of a number. -/
theorem first_of_expectsExponent {text : List Char}
    (expects : Lexeme.expectsExponent text.reverse = true) :
    ∃ first rest, text = first :: rest ∧ (first.isDigit = true ∨ first = '.') := by
  match reversed : text.reverse with
  | [] | [_] =>
    rw [reversed] at expects
    contradiction
  | mark :: digit :: more =>
    rw [reversed] at expects
    simp only [Lexeme.expectsExponent, Bool.and_eq_true] at expects
    have isText : text = (mark :: digit :: more).reverse := by
      rw [← reversed, List.reverse_reverse]
    have last := expects.2
    split at last
    · rename_i first isLast
      rw [List.getLast?_eq_head?_reverse] at isLast
      obtain ⟨rest, isRest⟩ := List.head?_eq_some_iff.mp isLast
      refine ⟨first, rest ++ [mark], ?_, by simpa using last⟩
      rw [isText, List.reverse_cons, isRest]
      rfl
    · contradiction

/-- A run of one or more digits. -/
structure IsDigits (text : List Char) : Prop where
  nonempty : text ≠ []
  digits : ∀ c ∈ text, c.isDigit = true

theorem isDigits_toDigits (n : Nat) : IsDigits (Nat.toDigits 10 n) :=
  ⟨Nat.toDigits_ne_nil, fun _ member => Nat.isDigit_of_mem_toDigits (by omega) (by omega) member⟩

theorem Decimal.digits?_eq_some_iff {text : List Char} {value : Nat} :
    digits? text = some value ↔ IsDigits text ∧ Nat.ofDigitChars 10 text 0 = value := by
  unfold digits?
  constructor
  · intro read
    split at read
    · rename_i isNumber
      rw [Bool.and_eq_true, List.all_eq_true] at isNumber
      exact ⟨⟨by simpa using isNumber.1, isNumber.2⟩, Option.some.inj read⟩
    · contradiction
  · rintro ⟨isDigits, rfl⟩
    have all : text.all Char.isDigit = true := List.all_eq_true.mpr isDigits.digits
    simp [all, isDigits.nonempty]

/-- The name of an image. -/
def imageName (slot : Nat) : List Char := 'I' :: Nat.toDigits 10 slot

theorem isWord_imageName (slot : Nat) : IsWord (imageName slot) := by
  refine isWord_of_plain (by simp [imageName]) ?_
  intro c member
  rcases List.mem_cons.mp member with rfl | member
  · decide
  · exact plain_of_isDigit ((isDigits_toDigits slot).digits c member)

theorem not_expectsExponent_imageName (slot : Nat) :
    Lexeme.expectsExponent (imageName slot).reverse = false := by
  cases expects : Lexeme.expectsExponent (imageName slot).reverse with
  | false => rfl
  | true =>
      obtain ⟨first, rest, same, isFirst⟩ := first_of_expectsExponent expects
      obtain ⟨rfl, -⟩ := List.cons.inj same
      simp at isFirst

/-- `I` with digits is no constant. -/
theorem constant?_eq_none {name : String} {index : List Char} (isName : name.toList = 'I' :: index)
    (digits : ∀ c ∈ index, c.isDigit = true) : constant? name = none := by
  have chars : (Text.lower name).toList = 'i' :: index := by
    rw [Text.toList_lower, isName, List.map_cons, map_toLower_of_digits digits]
    rfl
  unfold constant?
  split
  all_goals first
    | rfl
    | rename_i isConstant
      rw [isConstant] at chars
      simp at chars
  all_goals
    subst chars
    simp at digits

theorem digits?_toDigits (n : Nat) : Decimal.digits? (Nat.toDigits 10 n) = some n :=
  Decimal.digits?_eq_some_iff.mpr ⟨isDigits_toDigits n, Nat.ofDigitChars_ten_toDigits⟩

/-- The name of an image below the bound is read as this image. -/
theorem Scope.wordValue?_imageName {bound slot : Nat} (below : slot < bound) :
    wordValue? bound (String.ofList (imageName slot)) = some (.image slot) := by
  have chars : (String.ofList (imageName slot)).toList = 'I' :: Nat.toDigits 10 slot := by
    rw [String.toList_ofList]
    rfl
  have notConstant : constant? (String.ofList (imageName slot)) = none :=
    constant?_eq_none chars (isDigits_toDigits slot).digits
  have isSlot : slot? bound (Nat.toDigits 10 slot) = some slot := by
    simp [slot?, digits?_toDigits, below]
  have alpha : 'I'.isAlpha = true := by decide
  simp only [wordValue?, chars, alpha, if_true, imageValue?, notConstant, isSlot, Option.map_some]

/-! ## Numerals -/

theorem IsDigits.append {left right : List Char} (isLeft : IsDigits left)
    (digits : ∀ c ∈ right, c.isDigit = true) : IsDigits (left ++ right) := by
  refine ⟨by simp [isLeft.nonempty], ?_⟩
  intro c member
  rcases List.mem_append.mp member with member | member
  · exact isLeft.digits c member
  · exact digits c member

theorem isDigit_of_mem_replicate {count : Nat} {c : Char}
    (member : c ∈ List.replicate count '0') : c.isDigit = true := by
  rw [List.eq_of_mem_replicate member]
  decide

/-- The part of a numeral after the point, with the point. -/
inductive IsFraction : List Char → Prop
  | none : IsFraction []
  | point {digits : List Char} (isDigits : IsDigits digits) : IsFraction ('.' :: digits)

/-- The part of a numeral from the mark of the exponent on. -/
inductive IsExponent : List Char → Prop
  | none : IsExponent []
  | positive {digits : List Char} (isDigits : IsDigits digits) : IsExponent ('e' :: digits)
  | negative {digits : List Char} (isDigits : IsDigits digits) : IsExponent ('e' :: '-' :: digits)

/-- The literals that are written: digits, a point with digits, an exponent. -/
inductive IsNumeral : List Char → Prop
  | intro {whole fraction exponent : List Char} (isWhole : IsDigits whole)
      (isFraction : IsFraction fraction) (isExponent : IsExponent exponent) :
      IsNumeral (whole ++ (fraction ++ exponent))

namespace Layout

theorem isNumeral_positionalText {digits : List Char} (isDigits : IsDigits digits)
    (exponent : Int) : IsNumeral (literal.positionalText digits exponent) := by
  unfold positionalText
  split
  · rename_i zeros
    have whole : IsDigits (digits ++ List.replicate zeros '0') :=
      isDigits.append fun _ => isDigit_of_mem_replicate
    have fraction : IsFraction ['.', '0'] := .point ⟨by simp, by simp⟩
    exact .intro whole fraction .none
  · rename_i n
    simp only
    split
    · rename_i fits
      have whole : IsDigits (digits.take (digits.length - (n + 1))) := by
        refine ⟨?_, fun c member => isDigits.digits c (List.mem_of_mem_take member)⟩
        rw [ne_eq, List.take_eq_nil_iff]
        exact not_or.mpr ⟨by omega, isDigits.nonempty⟩
      have fraction : IsDigits (digits.drop (digits.length - (n + 1))) := by
        refine ⟨?_, fun c member => isDigits.digits c (List.mem_of_mem_drop member)⟩
        rw [ne_eq, List.drop_eq_nil_iff]
        omega
      simpa using IsNumeral.intro whole (.point fraction) .none
    · have whole : IsDigits ['0'] := ⟨by simp, by simp⟩
      have fraction : IsDigits (List.replicate (n + 1 - digits.length) '0' ++ digits) := by
        refine ⟨by simp [isDigits.nonempty], ?_⟩
        intro c member
        rcases List.mem_append.mp member with member | member
        · exact isDigit_of_mem_replicate member
        · exact isDigits.digits c member
      simpa using IsNumeral.intro whole (.point fraction) .none

theorem isNumeral_scientificText {digits : List Char} (isDigits : IsDigits digits)
    (exponent : Int) : IsNumeral (literal.scientificText digits exponent) := by
  cases digits with
  | nil => exact absurd rfl isDigits.nonempty
  | cons first more =>
      have whole : IsDigits [first] := ⟨by simp, by simpa using isDigits.digits first (.head _)⟩
      have fraction : IsFraction (if more.isEmpty then [] else '.' :: more) := by
        cases more with
        | nil => exact .none
        | cons c more => exact .point ⟨by simp, fun d member => isDigits.digits d (.tail _ member)⟩
      have power : IsExponent ('e' :: (if exponent < 0 then ['-'] else []) ++
          Nat.toDigits 10 exponent.natAbs) := by
        split
        · exact .negative (isDigits_toDigits _)
        · exact .positive (isDigits_toDigits _)
      simpa [scientificText, literal] using IsNumeral.intro whole fraction power

/-- What is written of a decimal is a numeral. -/
theorem isNumeral_decimalText (d : Decimal) : IsNumeral (literal.decimalText d) := by
  unfold decimalText
  simp only
  split
  · exact isNumeral_positionalText (isDigits_toDigits _) _
  · exact isNumeral_scientificText (isDigits_toDigits _) _

end Layout

namespace IsNumeral

/-- The digits up to the first character that is none. -/
theorem span_digits {digits rest : List Char} (all : ∀ c ∈ digits, c.isDigit = true)
    (ends : ∀ c ∈ rest.head?, c.isDigit = false) :
    (digits ++ rest).span Char.isDigit = (digits, rest) := by
  rw [List.span_eq_takeWhile_dropWhile, List.takeWhile_append_of_pos all,
    List.dropWhile_append_of_pos all]
  cases rest with
  | nil => simp
  | cons c rest => simp [ends c rfl]

theorem digits?_isSome {digits : List Char} (isDigits : IsDigits digits) :
    (Decimal.digits? digits).isSome := by
  rw [Decimal.digits?_eq_some_iff.mpr ⟨isDigits, rfl⟩, Option.isSome_some]

theorem exponent?_isSome {text : List Char} (isExponent : IsExponent text) :
    (Decimal.exponent? text).isSome := by
  cases isExponent with
  | none => rfl
  | negative isDigits =>
      obtain ⟨value, isValue⟩ := Option.isSome_iff_exists.mp (digits?_isSome isDigits)
      simp [Decimal.exponent?, isValue]
  | @positive digits isDigits =>
      cases digits with
      | nil => exact absurd rfl isDigits.nonempty
      | cons c digits =>
          have isDigit := isDigits.digits c (.head _)
          have notMinus : c ≠ '-' := by
            rintro rfl
            contradiction
          have notPlus : c ≠ '+' := by
            rintro rfl
            contradiction
          simpa [Decimal.exponent?, notMinus, notPlus] using digits?_isSome isDigits

theorem not_isDigit_exponent {text : List Char} (isExponent : IsExponent text) :
    ∀ c ∈ text.head?, c.isDigit = false := by
  cases isExponent <;> simp

/-- A numeral is a literal. -/
theorem parse?_isSome {text : List Char} (isNumeral : IsNumeral text) :
    ∃ decimal, Decimal.parse? text = some decimal := by
  obtain ⟨isWhole, isFraction, isExponent⟩ := isNumeral
  rename_i whole fraction exponent
  obtain ⟨value, isValue⟩ := Option.isSome_iff_exists.mp (exponent?_isSome isExponent)
  have nonempty := isWhole.nonempty
  unfold Decimal.parse?
  cases isFraction with
  | none =>
      rw [List.nil_append, span_digits isWhole.digits (not_isDigit_exponent isExponent)]
      cases isExponent <;> simp [nonempty, isValue]
  | point isDigits =>
      rw [span_digits isWhole.digits (by simp), List.cons_append]
      simp only [span_digits isDigits.digits (not_isDigit_exponent isExponent), isValue]
      simp [nonempty]

/-- A numeral starts with a digit. -/
theorem first {text : List Char} (isNumeral : IsNumeral text) :
    ∃ c rest, text = c :: rest ∧ c.isDigit = true := by
  obtain ⟨isWhole, -, -⟩ := isNumeral
  rename_i whole fraction exponent
  cases whole with
  | nil => exact absurd rfl isWhole.nonempty
  | cons c whole => exact ⟨c, _, rfl, isWhole.digits c (.head _)⟩

theorem plain_fraction {text : List Char} (isFraction : IsFraction text) :
    ∀ c ∈ text, IsPlainCode c.toNat := by
  cases isFraction with
  | none => simp
  | point isDigits =>
      intro c member
      rcases List.mem_cons.mp member with rfl | member
      · decide
      · exact plain_of_isDigit (isDigits.digits c member)

/-- The last digit of a run. -/
theorem last_digit {digits : List Char} (isDigits : IsDigits digits) :
    ∃ init last, digits = init ++ [last] ∧ last.isDigit = true := by
  refine ⟨digits.dropLast, digits.getLast isDigits.nonempty, ?_, ?_⟩
  · exact (List.dropLast_append_getLast isDigits.nonempty).symm
  · exact isDigits.digits _ (List.getLast_mem _)

/-- After the mark of its exponent, a numeral waits for a sign. -/
theorem expectsExponent {whole fraction : List Char} (isWhole : IsDigits whole)
    (isFraction : IsFraction fraction) :
    Lexeme.expectsExponent ('e' :: (whole ++ fraction).reverse) = true := by
  obtain ⟨init, last, isLast, isDigit⟩ :
      ∃ init last, whole ++ fraction = init ++ [last] ∧ last.isDigit = true := by
    cases isFraction with
    | none => simpa using last_digit isWhole
    | point isDigits =>
        obtain ⟨init, last, rfl, isDigit⟩ := last_digit isDigits
        exact ⟨whole ++ '.' :: init, last, by simp, isDigit⟩
  obtain ⟨first, rest, isFirst, startsDigit⟩ :
      ∃ first rest, init ++ [last] = first :: rest ∧ first.isDigit = true := by
    cases whole with
    | nil => exact absurd rfl isWhole.nonempty
    | cons c whole => exact ⟨c, _, isLast.symm, isWhole.digits c (.head _)⟩
  have final : (last :: init.reverse).getLast? = some first := by
    rw [List.getLast?_eq_head?_reverse, List.reverse_cons, List.reverse_reverse, isFirst]
    rfl
  rw [isLast, List.reverse_append, List.reverse_singleton, List.singleton_append]
  simp [Lexeme.expectsExponent, final, isDigit, startsDigit]

/-- A numeral is a word. -/
theorem isWord {text : List Char} (isNumeral : IsNumeral text) : IsWord text := by
  obtain ⟨isWhole, isFraction, isExponent⟩ := isNumeral
  rename_i whole fraction exponent
  have nonempty := isWhole.nonempty
  have front : ∀ c ∈ whole ++ fraction, IsPlainCode c.toNat := by
    intro c member
    rcases List.mem_append.mp member with member | member
    · exact plain_of_isDigit (isWhole.digits c member)
    · exact plain_fraction isFraction c member
  have held : Lexeme.Held (whole ++ fraction).reverse :=
    (isWord_of_plain (by simp [nonempty]) front).held
  have marked : Lexeme.Held ('e' :: (whole ++ fraction).reverse) := .letter (by decide) held
  refine ⟨by simp [nonempty], ?_⟩
  rw [← List.append_assoc, List.reverse_append]
  cases isExponent with
  | none => exact held
  | positive isDigits =>
      rw [List.reverse_cons, List.append_assoc]
      exact marked.append_plain fun c member => plain_of_isDigit (isDigits.digits c member)
  | negative isDigits =>
      -- the sign stays in the word, for digits and a mark come before it
      have signed : Lexeme.Held ('-' :: 'e' :: (whole ++ fraction).reverse) :=
        .sign (Mark.ofChar_symbol .sub) rfl (expectsExponent isWhole isFraction) marked
      rw [List.reverse_cons, List.reverse_cons, List.append_assoc, List.append_assoc]
      exact signed.append_plain fun c member => plain_of_isDigit (isDigits.digits c member)

end IsNumeral

/-! ## Numbers of formulas -/

/-- A text is a formula of one token, a number, whatever names are known. -/
def ReadsAs (text : String) (value : Binary32) : Prop :=
  ∀ scope : Scope, scope.tokens text =
    (.ok [Token.ofKind (.value (.number value)) ⟨0, text.length⟩], scope)

theorem not_isAlpha_of_isDigit {c : Char} (isDigit : c.isDigit = true) : c.isAlpha = false := by
  have bounds := Char.isDigit_iff_toNat.mp isDigit
  have high : c.toNat ≤ 57 := bounds.2
  rw [Bool.eq_false_iff]
  intro isAlpha
  unfold Char.isAlpha Char.isUpper Char.isLower at isAlpha
  have letter : 65 ≤ c.toNat ∧ c.toNat ≤ 90 ∨ 97 ≤ c.toNat ∧ c.toNat ≤ 122 := by
    simpa [UInt32.le_iff_toNat_le] using isAlpha
  omega

/-- A numeral is read as a number in every scope. -/
theorem IsNumeral.readWord {text : List Char} (isNumeral : IsNumeral text) :
    ∃ value, ∀ (scope : Scope) (span : Span),
      scope.readWord (String.ofList text) span = (.ok (.number value), scope) := by
  obtain ⟨decimal, parsed⟩ := isNumeral.parse?_isSome
  obtain ⟨c, rest, rfl, isDigit⟩ := isNumeral.first
  refine ⟨decimal.narrowed, ?_⟩
  intro scope span
  simp [Scope.readWord, not_isAlpha_of_isDigit isDigit, parsed]

theorem cut_word {text : List Char} (isWord : IsWord text) :
    Lexeme.cut (String.ofList text) = [⟨.word (String.ofList text), ⟨0, text.length⟩⟩] := by
  have single : Cut [.word text] := .cons isWord trivial .nil
  have cut := Lexeme.cutFrom_pieces single 0
  simpa [Lexeme.cut, Piece.chars, Piece.place, Piece.kind?] using cut

theorem IsNumeral.readsAs {text : List Char} (isNumeral : IsNumeral text) {value : Binary32}
    (reads : ∀ (scope : Scope) (span : Span),
      scope.readWord (String.ofList text) span = (.ok (.number value), scope)) :
    ReadsAs (String.ofList text) value := by
  intro scope
  simp [Scope.tokens, cut_word isNumeral.isWord, Lexeme.tokens, Lexeme.token, reads]

namespace Binary32

/-- The numbers that words stand for: none has a sign, and there is one that is not a number. -/
structure IsUnsigned (x : Binary32) : Prop where
  positive : x.isNegative = false
  nan : x.isNaN = true → x = .nan

theorem isUnsigned_ofCode (code : Nat) : IsUnsigned (ofCode false code) := by
  have small : min code infinityCode ≤ 0x7F800000 := Nat.min_le_right _ _
  have bits : (ofCode false code).bits.toNat = min code infinityCode := by
    simp only [ofCode, Bool.false_eq_true, if_false, Nat.add_zero, UInt32.toNat_ofNat']
    omega
  constructor
  · simp only [isNegative, bits, decide_eq_false_iff_not]
    omega
  · intro isNaN
    simp only [Binary32.isNaN, Binary32.code, bits, decide_eq_true_eq] at isNaN
    unfold infinityCode at isNaN small
    omega

theorem isUnsigned_narrowed (d : Decimal) : IsUnsigned d.narrowed := by
  unfold Decimal.narrowed
  split
  · exact isUnsigned_ofCode _
  · exact isUnsigned_ofCode infinityCode

theorem isUnsigned_constant {name : String} {value : Binary32}
    (constant : constant? name = some value) : IsUnsigned value := by
  unfold constant? at constant
  split at constant
  all_goals first | obtain rfl := Option.some.inj constant | cases constant
  all_goals exact ⟨by decide, by decide⟩

end Binary32

theorem Scope.isUnsigned_of_wordValue? {bound : Nat} {word : String} {number : Binary32}
    (value : wordValue? bound word = some (.number number)) : number.IsUnsigned := by
  rcases wordValue?_eq_some value with ⟨slot, same, -⟩ | ⟨decimal, same⟩ | ⟨found, constant, same⟩
  · contradiction
  · rw [Expr.number.inj same]
    exact Binary32.isUnsigned_narrowed decimal
  · rw [Expr.number.inj same]
    exact Binary32.isUnsigned_constant constant

/-- The literal of a finite number without sign is a numeral. -/
theorem Binary32.literal?_isNumeral {x : Binary32} (unsigned : x.IsUnsigned)
    (isFinite : x.isFinite = true) :
    ∃ text, x.literal? = some (String.ofList text) ∧ IsNumeral text := by
  refine ⟨_, by rw [literal?, isFinite]; rfl, ?_⟩
  simp only [Layout.numberText, unsigned.positive]
  exact Layout.isNumeral_decimalText _

end ImageFormula
