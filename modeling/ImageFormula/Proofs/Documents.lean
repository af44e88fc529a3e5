import Mathlib.Data.List.TakeWhile
import ImageFormula.Config
import ImageFormula.Proofs.Literals
import ImageFormula.Proofs.Quoting

/-!
# Documents of lines

A document with one statement to a line is read as these statements
(`IsDocument.readStatements`). What stands on a line is said apart from the lines after it:
`IsValue` for the values of numbers and texts, `IsStatement` for headers and assignments.
-/

namespace ImageFormula.Toml

/-! ## Numbers -/

/-- Only zero starts with the digit zero. -/
theorem toDigits_ne_zero_cons {n : Nat} (positive : 0 < n) (more : List Char) :
    Nat.toDigits 10 n ≠ '0' :: more := by
  induction n using Nat.strongRecOn generalizing more with
  | ind n ih =>
      rw [Nat.toDigits_eq_if (by omega)]
      split
      · simp; omega
      · intro same
        cases front : Nat.toDigits 10 (n / 10) with
        | nil => exact Nat.toDigits_ne_nil front
        | cons c tail =>
            rw [front] at same
            obtain ⟨rfl, -⟩ := List.cons.inj same
            exact ih (n / 10) (by omega) (by omega) tail front

theorem ungrouped?_digits {text : List Char} (digits : IsDigits text) :
    ungrouped? Char.isDigit text = some text := by
  obtain ⟨nonempty, isDigit⟩ := digits
  induction text with
  | nil => exact absurd rfl nonempty
  | cons c text ih =>
      rw [List.forall_mem_cons] at isDigit
      cases text with
      | nil => simp [ungrouped?, isDigit.1]
      | cons d text =>
          have next := ih (by simp) isDigit.2
          have notGroup : d ≠ '_' := by
            rintro rfl
            exact absurd (isDigit.2 '_' List.mem_cons_self) (by decide)
          rw [ungrouped?]
          · simp [isDigit.1, next]
          all_goals simp_all

theorem decimal?_toDigits (n : Nat) : decimal? (Nat.toDigits 10 n) = some n := by
  unfold decimal?
  rw [ungrouped?_digits (isDigits_toDigits n)]
  split
  · rename_i digits
    rcases Nat.eq_zero_or_pos n with rfl | positive
    · cases digits
    · exact absurd (Option.some.inj digits) (toDigits_ne_zero_cons positive _)
  · rename_i digits
    rw [← Option.some.inj digits, Nat.ofDigitChars_ten_toDigits]
  · contradiction

theorem integer?_toDigits (n : Nat) : integer? (Nat.toDigits 10 n) = some (n : Int) := by
  have isDigit : ∀ c ∈ Nat.toDigits 10 n, c.isDigit = true := (isDigits_toDigits n).digits
  unfold integer?
  split
  · simp_all
  · simp_all
  · simp_all
  · simp_all
  · simp_all
  · rw [decimal?_toDigits]
    rfl

theorem digitField?_digits {text : List Char} (digits : IsDigits text) (count : Nat) :
    digitField? count text =
      if text.length = count then some (Nat.ofDigitChars 10 text 0, []) else none := by
  unfold digitField?
  rw [List.takeWhile_eq_self_iff.mpr digits.digits, List.dropWhile_eq_nil_iff.mpr digits.digits]

/-- Digits alone are no moment, as a mark would have to follow the first of its fields. -/
theorem isMoment_digits {text : List Char} (digits : IsDigits text) : isMoment text = false := by
  have noDate : afterDate? text = none := by
    unfold afterDate?
    rw [digitField?_digits digits]
    split <;> rfl
  have noMinutes : afterMinutes? text = none := by
    unfold afterMinutes?
    rw [digitField?_digits digits]
    split <;> rfl
  have noTime : afterTime? text = none := by
    unfold afterTime?
    rw [noMinutes]
    rfl
  unfold isMoment
  rw [noDate, noTime]
  rfl

theorem bareValue?_toDigits (n : Nat) : bareValue? (Nat.toDigits 10 n) = some (.integer n) := by
  have digits := isDigits_toDigits n
  unfold bareValue?
  rw [if_neg, if_neg, isMoment_digits digits, integer?_toDigits]
  · rfl
  · intro same
    exact absurd (digits.digits 'f' (by simp [same])) (by decide)
  · intro same
    exact absurd (digits.digits 't' (by simp [same])) (by decide)

/-! ## Values at the end of a line -/

/-- A text that is read as a value wherever a line ends after it. -/
structure IsValue (text : List Char) (node : Node) : Prop where
  start : ∀ rest, skipBlanks (text ++ rest) = text ++ rest
  read : ∀ levels fuel rest,
    readValue levels (fuel + 1) (text ++ '\n' :: rest) = some (node, '\n' :: rest)

theorem isKeyChar_of_isDigit {c : Char} (digit : c.isDigit = true) : isKeyChar c = true := by
  simp [isKeyChar, Char.isAlphanum, digit]

theorem isLineBlank_of_isKeyChar {c : Char} (isChar : isKeyChar c = true) :
    isLineBlank c = false := by
  refine Bool.eq_false_iff.mpr ?_
  intro blank
  simp only [isLineBlank, Bool.or_eq_true, beq_iff_eq] at blank
  rcases blank with rfl | rfl <;> cases isChar

theorem readBare_toDigits (n : Nat) (rest : List Char) :
    readBare (Nat.toDigits 10 n ++ '\n' :: rest) = some (.integer n, '\n' :: rest) := by
  have bare : ∀ c ∈ Nat.toDigits 10 n, isBareChar c = true := by
    intro c member
    simp [isBareChar, isKeyChar_of_isDigit ((isDigits_toDigits n).digits c member)]
  have word : bareWord (Nat.toDigits 10 n ++ '\n' :: rest) = (Nat.toDigits 10 n, '\n' :: rest) := by
    unfold bareWord
    rw [List.takeWhile_append_of_pos bare, List.dropWhile_append_of_pos bare]
    show (Nat.toDigits 10 n ++ [], '\n' :: rest) = _
    rw [List.append_nil]
  unfold readBare
  rw [word]
  show (bareValue? (Nat.toDigits 10 n)).map _ = _
  rw [bareValue?_toDigits]
  rfl

theorem isValue_toDigits (n : Nat) : IsValue (Nat.toDigits 10 n) (.integer n) := by
  have digits := isDigits_toDigits n
  obtain ⟨c, more, isText⟩ := List.exists_cons_of_ne_nil digits.nonempty
  have digit : c.isDigit = true := digits.digits c (by simp [isText])
  refine ⟨?_, ?_⟩
  · intro rest
    rw [isText]
    exact List.dropWhile_cons_of_neg
      (by simp [isLineBlank_of_isKeyChar (isKeyChar_of_isDigit digit)])
  · intro levels fuel rest
    rw [← readBare_toDigits, isText]
    show readValue levels (fuel + 1) (c :: (more ++ _)) = _
    rw [readValue]
    · rfl
    all_goals
      intro _ same
      cases same
      cases digit

theorem exists_quote_cons (text : List Char) :
    ∃ more, quote text = '"' :: more ∨ quote text = '\'' :: more := by
  unfold quote
  cases quotesFor text with
  | double => exact ⟨_, .inl rfl⟩
  | single => exact ⟨_, .inr rfl⟩
  | tripleDouble => exact ⟨_, .inl rfl⟩
  | tripleSingle => exact ⟨_, .inr rfl⟩

theorem isValue_quote (text : List Char) : IsValue (quote text) (.text (String.ofList text)) := by
  have read (rest : List Char) :
      readQuoted (quote text ++ '\n' :: rest) = some (text, '\n' :: rest) :=
    readQuoted_quote text (by simp)
  obtain ⟨more, starts | starts⟩ := exists_quote_cons text
  all_goals
    rw [starts] at read ⊢
    refine ⟨fun rest => rfl, ?_⟩
    intro levels fuel rest
    rw [List.cons_append, readValue, ← List.cons_append, read]
    rfl

/-! ## Statements -/

/-- A text that is read as one statement, whatever the lines after it. -/
structure IsStatement (text : List Char) (statement : Statement) : Prop where
  start : ∀ rest, skipBreaks false (text ++ rest) = text ++ rest
  read : ∀ rest, readStatement (text ++ '\n' :: rest) = some (statement, '\n' :: rest)

theorem IsStatement.nonempty {text : List Char} {statement : Statement}
    (isStatement : IsStatement text statement) : text ≠ [] := by
  rintro rfl
  exact absurd (isStatement.start ['\n']) (by decide)

/-- A key that needs no quotes. -/
structure IsBareKey (key : String) : Prop where
  nonempty : key.toList ≠ []
  all : key.toList.all isKeyChar = true

section BareKeys

variable {key : String} (bare : IsBareKey key)
include bare

theorem IsBareKey.chars : ∀ c ∈ key.toList, isKeyChar c = true := List.all_eq_true.mp bare.all

theorem IsBareKey.exists_cons : ∃ c more, key.toList = c :: more ∧ isKeyChar c = true := by
  obtain ⟨c, more, isKey⟩ := List.exists_cons_of_ne_nil bare.nonempty
  exact ⟨c, more, isKey, bare.chars c (by simp [isKey])⟩

theorem IsBareKey.skipBlanks (rest : List Char) :
    skipBlanks (key.toList ++ rest) = key.toList ++ rest := by
  obtain ⟨c, more, isKey, isChar⟩ := bare.exists_cons
  rw [isKey]
  exact List.dropWhile_cons_of_neg (by simp [isLineBlank_of_isKeyChar isChar])

theorem IsBareKey.skipBreaks (rest : List Char) :
    skipBreaks false (key.toList ++ rest) = key.toList ++ rest := by
  obtain ⟨c, more, isKey, isChar⟩ := bare.exists_cons
  have other (d : Char) (noKey : isKeyChar d = false) : c ≠ d := by
    rintro rfl
    rw [isChar] at noKey
    cases noKey
  rw [isKey]
  show Toml.skipBreaks false (c :: (more ++ rest)) = c :: (more ++ rest)
  rw [Toml.skipBreaks]
  · simp [isLineBlank_of_isKeyChar isChar, other '#' rfl]
  · exact other '\n' rfl
  · intro _ isReturn
    exact absurd isReturn (other '\r' rfl)

/-- The key is the whole path where no dot follows it. -/
theorem IsBareKey.readPath {rest : List Char} (ends : rest.takeWhile isKeyChar = [])
    (single : ∀ more, Toml.skipBlanks rest ≠ '.' :: more) :
    readPath (key.toList ++ rest) = some ([key], rest) := by
  have whole : rest.dropWhile isKeyChar = rest := by
    have parts := List.takeWhile_append_dropWhile (p := isKeyChar) (l := rest)
    rwa [ends] at parts
  have first : readKey (key.toList ++ rest) = some (key, rest) := by
    obtain ⟨c, more, isKey, isChar⟩ := bare.exists_cons
    rw [readKey]
    · rw [List.takeWhile_append_of_pos bare.chars, List.dropWhile_append_of_pos bare.chars, ends,
        whole, List.append_nil, String.ofList_toList, isKey]
      rfl
    all_goals
      intro _ same
      rw [isKey] at same
      cases same
      cases isChar
  have parts : readParts (key.toList ++ rest) = some ([key], rest) := by
    rw [readParts, first]
    dsimp only
    split
    · rename_i isDot
      exact absurd isDot (single _)
    · rfl
  unfold Toml.readPath
  rw [parts]
  rfl

theorem isStatement_header :
    IsStatement ('[' :: key.toList ++ [']']) (.header ⟨[key], false⟩) where
  start rest := rfl
  read rest := by
    obtain ⟨c, more, isKey, isChar⟩ := bare.exists_cons
    show (readHeader (key.toList ++ [']'] ++ '\n' :: rest)).map _ = _
    rw [List.append_assoc, readHeader]
    · rw [bare.skipBlanks, bare.readPath rfl (by intro more same; cases same)]
      rfl
    · intro _ same
      rw [isKey] at same
      cases same
      cases isChar

theorem isStatement_line {value : List Char} {node : Node} (isValue : IsValue value node) :
    IsStatement (key.toList ++ ' ' :: '=' :: ' ' :: value) (.assignment [key] node) where
  start rest := by
    rw [List.append_assoc, bare.skipBreaks]
  read rest := by
    have assigns : readAssignment (key.toList ++ (' ' :: '=' :: ' ' :: value ++ '\n' :: rest)) =
        some (([key], node), '\n' :: rest) := by
      unfold readAssignment
      rw [bare.readPath rfl (by intro more same; cases same)]
      show (readValue _ _ (Toml.skipBlanks (value ++ '\n' :: rest))).map _ = _
      rw [isValue.start, isValue.read]
      rfl
    obtain ⟨c, more, isKey, isChar⟩ := bare.exists_cons
    rw [List.append_assoc, readStatement, assigns]
    · rfl
    · intro _ same
      rw [isKey] at same
      cases same
      cases isChar

end BareKeys

/-! ## Documents -/

/-- Statements on lines of their own, with empty lines between them. -/
inductive IsDocument : List Char → List Statement → Prop
  | empty : IsDocument [] []
  | blank {text : List Char} {statements : List Statement} (more : IsDocument text statements) :
      IsDocument ('\n' :: text) statements
  | line {first text : List Char} {statement : Statement} {statements : List Statement}
      (isStatement : IsStatement first statement) (more : IsDocument text statements) :
      IsDocument (first ++ '\n' :: text) (statement :: statements)

theorem skipBreaks_breaks (count : Nat) (text : List Char) :
    skipBreaks false (List.replicate count '\n' ++ text) = skipBreaks false text := by
  induction count with
  | zero => rfl
  | succ count ih => rw [List.replicate_succ, List.cons_append, skipBreaks, ih]

/-- The statements of a document are read after any number of line breaks. -/
theorem IsDocument.readStatements {text : List Char} {statements : List Statement}
    (document : IsDocument text statements) (breaks : Nat) :
    readStatements (List.replicate breaks '\n' ++ text) = some statements := by
  induction document generalizing breaks with
  | empty =>
      rw [Toml.readStatements, skipBreaks_breaks]
      rfl
  | @blank text statements _ ih =>
      have next := ih (breaks + 1)
      rwa [List.replicate_succ', List.append_assoc] at next
  | @line first text statement statements isStatement _ ih =>
      have next : Toml.readStatements ('\n' :: text) = some statements := ih 1
      have positive := List.length_pos_of_ne_nil isStatement.nonempty
      rw [Toml.readStatements, skipBreaks_breaks, isStatement.start]
      split
      · simp_all
      · rw [isStatement.read]
        dsimp only
        rw [dif_pos (by simp; omega), next]
        rfl

end ImageFormula.Toml
