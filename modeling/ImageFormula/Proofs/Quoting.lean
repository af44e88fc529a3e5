import ImageFormula.Toml.Quoted

/-!
# Strings in quotes

Every text is written in one of four forms, and the reader of strings gives it back
(`readQuoted_quote`). The two readers between double quotes take escapes alike (`Unescapes`), and
the two between triple quotes take quotes alike (`EndsAtThree`). There a quote may stand for itself,
so that what it means depends on those around it: the inductions over a text carry the run of quotes
before it.
-/

namespace ImageFormula.Toml

/-! ## Escapes -/

/-- How a reader between double quotes takes escapes and plain characters. -/
structure Unescapes (read : List Char → Reading) : Prop where
  letter : ∀ letter c, escape? letter = some c → ∀ rest,
    read ('\\' :: letter :: rest) = Reading.push c (read rest)
  code : ∀ a b c d char, hexChar? [a, b, c, d] = some char → ∀ rest,
    read ('\\' :: 'u' :: a :: b :: c :: d :: rest) = Reading.push char (read rest)
  plain : ∀ c, c ≠ '"' → c ≠ '\\' → isPlain c = true → ∀ rest,
    read (c :: rest) = Reading.push c (read rest)

theorem unescapes_double : Unescapes readDouble where
  letter letter c isEscape rest := by
    unfold escape? at isEscape
    split at isEscape
    case h_9 => cases isEscape
    all_goals
      cases isEscape
      rfl
  code a b c d char isCode rest := by
    show (hexChar? [a, b, c, d]).bind _ = _
    rw [isCode]
    rfl
  plain c notQuote notEscape isPlain rest := by
    rw [readDouble]
    · exact if_pos isPlain
    all_goals simp_all

theorem unescapes_tripleDouble : Unescapes (readTripleDouble false) where
  letter letter c isEscape rest := by
    unfold escape? at isEscape
    split at isEscape
    case h_9 => cases isEscape
    all_goals
      cases isEscape
      rfl
  code a b c d char isCode rest := by
    show (hexChar? [a, b, c, d]).bind _ = _
    rw [isCode]
    rfl
  plain c notQuote notEscape isPlain rest := by
    have notReturn : c ≠ '\r' := by
      rintro rfl
      cases isPlain
    rw [readTripleDouble]
    · simp [isPlain]
    all_goals simp_all

/-- The code of a control character in its escape. -/
theorem hexChar?_control {c : Char} (control : isControl c = true) :
    hexChar? ['0', '0', hexDigit (c.toNat / 16), hexDigit (c.toNat % 16)] = some c := by
  have codes : ∀ n < 128, hexChar? ['0', '0', hexDigit (n / 16), hexDigit (n % 16)] =
      some (Char.ofNat n) := by
    decide
  have small : c.toNat < 128 := by
    simp only [isControl, Bool.or_eq_true, decide_eq_true_eq, beq_iff_eq] at control
    omega
  rw [codes c.toNat small, Char.ofNat_toNat]

/-- Characters other than quotes are read back. -/
theorem Unescapes.escaped {read : List Char → Reading} (unescapes : Unescapes read) {c : Char}
    (notQuote : c ≠ '"') (rest : List Char) :
    read (escaped c ++ rest) = Reading.push c (read rest) := by
  unfold Toml.escaped
  split
  · exact unescapes.letter 'b' _ rfl rest
  · exact unescapes.letter 't' _ rfl rest
  · exact unescapes.letter 'f' _ rfl rest
  · exact unescapes.letter 'r' _ rfl rest
  · exact unescapes.letter '\\' _ rfl rest
  · rename_i notEscape
    split
    · rename_i control
      exact unescapes.code _ _ _ _ c (hexChar?_control control) rest
    · rename_i noControl
      exact unescapes.plain c notQuote notEscape (by simp [isPlain, noControl]) rest

theorem readDouble_doubleBody (text rest : List Char) :
    readDouble (doubleBody text ++ '"' :: rest) = some (text, rest) := by
  induction text with
  | nil => rfl
  | cons c text ih =>
      have first : readDouble (doubleBody (c :: text) ++ '"' :: rest) =
          Reading.push c (readDouble (doubleBody text ++ '"' :: rest)) := by
        show readDouble
          ((if c = '"' then _ else if c = '\n' then _ else _) ++ doubleBody text ++ _) = _
        rw [List.append_assoc]
        split
        · rename_i isQuote
          rw [isQuote]
          rfl
        · rename_i notQuote
          split
          · rename_i isBreak
            rw [isBreak]
            rfl
          · exact unescapes_double.escaped notQuote _
      rw [first, ih]
      rfl

/-! ## Runs of quotes -/

/-- How a reader between triple quotes takes them: two at most stand for themselves, and the last
three of more end the text. -/
structure EndsAtThree (quote : Char) (read : List Char → Reading) : Prop where
  push : ∀ input, (∀ more, input ≠ quote :: quote :: more) →
    read (quote :: input) = Reading.push quote (read input)
  close : ∀ run ≤ 2, ∀ rest, (∀ more, rest ≠ quote :: more) →
    read (List.replicate run quote ++ quote :: quote :: quote :: rest) =
      some (List.replicate run quote, rest)

theorem EndsAtThree.run {quote c : Char} {read : List Char → Reading}
    (ends : EndsAtThree quote read) (notQuote : c ≠ quote) {count : Nat} (short : count ≤ 2)
    {input text rest : List Char} (found : read (c :: input) = some (text, rest)) :
    read (List.replicate count quote ++ c :: input) =
      some (List.replicate count quote ++ text, rest) := by
  have once : read (quote :: c :: input) = some (quote :: text, rest) := by
    rw [ends.push _ (by simp [notQuote]), found]
    rfl
  obtain rfl | rfl | rfl : count = 0 ∨ count = 1 ∨ count = 2 := by omega
  · exact found
  · exact once
  · show read (quote :: quote :: c :: input) = _
    rw [ends.push _ (by simp [notQuote]), once]
    rfl

theorem endsAtThree_double : EndsAtThree '"' (readTripleDouble false) where
  push input differs := by
    rw [readTripleDouble]
    · rfl
    all_goals simp_all
  close run short rest closed := by
    obtain rfl | rfl | rfl : run = 0 ∨ run = 1 ∨ run = 2 := by omega
    · show readTripleDouble false ('"' :: '"' :: '"' :: rest) = _
      rw [readTripleDouble]
      · rfl
      all_goals simp_all
    · show readTripleDouble false ('"' :: '"' :: '"' :: '"' :: rest) = _
      rw [readTripleDouble]
      · rfl
      all_goals simp_all
    · rfl

theorem endsAtThree_single : EndsAtThree '\'' readTripleSingle where
  push input differs := by
    rw [readTripleSingle]
    · rfl
    all_goals simp_all
  close run short rest closed := by
    obtain rfl | rfl | rfl : run = 0 ∨ run = 1 ∨ run = 2 := by omega
    · show readTripleSingle ('\'' :: '\'' :: '\'' :: rest) = _
      rw [readTripleSingle]
      · rfl
      all_goals simp_all
    · show readTripleSingle ('\'' :: '\'' :: '\'' :: '\'' :: rest) = _
      rw [readTripleSingle]
      · rfl
      all_goals simp_all
    · rfl

/-! ## Between triple double quotes -/

/-- What an escape starts with. -/
theorem escaped_eq_cons {c : Char} (notQuote : c ≠ '"') :
    ∃ first more, escaped c = first :: more ∧ first ≠ '"' ∧ isPlain first = true := by
  unfold escaped
  split
  · exact ⟨_, _, rfl, by decide, by decide⟩
  · exact ⟨_, _, rfl, by decide, by decide⟩
  · exact ⟨_, _, rfl, by decide, by decide⟩
  · exact ⟨_, _, rfl, by decide, by decide⟩
  · exact ⟨_, _, rfl, by decide, by decide⟩
  · split
    · exact ⟨_, _, rfl, by decide, by decide⟩
    · exact ⟨_, _, rfl, notQuote, by simp_all [isPlain]⟩

/-- A text is read back after `run` more quotes. The run grows with each quote that stands for
itself, and any other character, an escaped quote among them, ends it. -/
theorem readTripleDouble_tripleBody {rest : List Char} (closed : ∀ more, rest ≠ '"' :: more)
    (text : List Char) {run : Nat} (short : run ≤ 2) :
    readTripleDouble false
        (List.replicate run '"' ++ (tripleBody run text ++ '"' :: '"' :: '"' :: rest)) =
      some (List.replicate run '"' ++ text, rest) := by
  induction text generalizing run with
  | nil => simpa [tripleBody] using endsAtThree_double.close run short rest closed
  | cons c text ih =>
      have next := ih (Nat.zero_le 2)
      rw [tripleBody]
      split
      · rename_i isQuote
        subst isQuote
        split
        · rename_i shorter
          have grown := ih (Nat.succ_le_of_lt shorter)
          simpa [List.replicate_succ'] using grown
        · refine endsAtThree_double.run (by decide) short ?_
          exact congrArg (Reading.push '"') next
      · rename_i notQuote
        split
        · rename_i isBreak
          subst isBreak
          refine endsAtThree_double.run notQuote short ?_
          exact congrArg (Reading.push '\n') next
        · obtain ⟨first, more, starts, notQuote', -⟩ := escaped_eq_cons notQuote
          have read := unescapes_tripleDouble.escaped notQuote
            (tripleBody 0 text ++ '"' :: '"' :: '"' :: rest)
          rw [List.append_assoc, starts]
          rw [starts] at read
          refine endsAtThree_double.run notQuote' short ?_
          exact read.trans (congrArg (Reading.push c) next)

/-! ## Between single quotes -/

/-- A text without controls has plain characters and line breaks only. -/
theorem isPlain_of_hasControl {text : List Char} (free : hasControl text = false) :
    ∀ c ∈ text, isPlain c = true ∨ c = '\n' := by
  intro c member
  have := List.any_eq_false.mp free c member
  simp only [isPlain]
  grind

theorem isPlain_of_unbroken {text : List Char} (free : hasControl text = false)
    (unbroken : '\n' ∉ text) : ∀ c ∈ text, isPlain c = true := by
  intro c member
  refine (isPlain_of_hasControl free c member).resolve_right ?_
  rintro rfl
  exact unbroken member

theorem readSingle_append {text : List Char} (plain : ∀ c ∈ text, isPlain c = true)
    (absent : '\'' ∉ text) (rest : List Char) :
    readSingle (text ++ '\'' :: rest) = some (text, rest) := by
  induction text with
  | nil => rfl
  | cons c text ih =>
      rw [List.forall_mem_cons] at plain
      rw [List.mem_cons, not_or] at absent
      rw [List.cons_append, readSingle, if_neg (Ne.symm absent.1), if_pos plain.1,
        ih plain.2 absent.2]
      rfl

theorem readTripleSingle_plain {c : Char} (notQuote : c ≠ '\'')
    (plain : isPlain c = true ∨ c = '\n') (rest : List Char) :
    readTripleSingle (c :: rest) = Reading.push c (readTripleSingle rest) := by
  have notReturn : c ≠ '\r' := by
    rintro rfl
    exact absurd plain (by decide)
  rw [readTripleSingle]
  · rw [if_pos (by simpa using plain)]
  all_goals simp_all

/-- A text is read back after `run` more quotes. -/
theorem readTripleSingle_append {rest : List Char} (closed : ∀ more, rest ≠ '\'' :: more)
    {text : List Char} (plain : ∀ c ∈ text, isPlain c = true ∨ c = '\n') {run : Nat}
    (short : longestRun '\'' run text ≤ 2) :
    readTripleSingle (List.replicate run '\'' ++ (text ++ '\'' :: '\'' :: '\'' :: rest)) =
      some (List.replicate run '\'' ++ text, rest) := by
  induction text generalizing run with
  | nil => simpa using endsAtThree_single.close run short rest closed
  | cons c text ih =>
      rw [List.forall_mem_cons] at plain
      rw [longestRun] at short
      split at short
      · rename_i isQuote
        subst isQuote
        have grown := ih plain.2 short
        simpa [List.replicate_succ'] using grown
      · rename_i notQuote
        have next := ih plain.2 (Nat.le_trans (Nat.le_max_right _ _) short)
        refine endsAtThree_single.run notQuote (Nat.le_trans (Nat.le_max_left _ _) short) ?_
        show readTripleSingle (c :: (text ++ _)) = _
        rw [readTripleSingle_plain notQuote plain.1]
        exact congrArg (Reading.push c) next

/-! ## All four forms -/

/-- The break before a text is dropped, and the text itself never starts with one that is. -/
theorem dropBreak_leadingBreak {text body : List Char}
    (starts : '\n' ∉ text → ∀ c ∈ body.head?, isPlain c = true) :
    dropBreak (leadingBreak text ++ body) = body := by
  unfold leadingBreak
  split
  · rfl
  · rename_i unbroken
    cases body with
    | nil => rfl
    | cons c body =>
        have plain : isPlain c = true := starts (by simpa using unbroken) c rfl
        show dropBreak (c :: body) = c :: body
        rw [dropBreak]
        all_goals
          intro tail same
          cases same
          cases plain

theorem quotesFor_eq_single {text : List Char} (chosen : quotesFor text = .single) :
    text ≠ [] ∧ hasControl text = false ∧ '\'' ∉ text ∧ '\n' ∉ text := by
  refine ⟨?_, ?_⟩
  · rintro rfl
    cases chosen
  · simp only [quotesFor] at chosen
    split at chosen
    · cases chosen
    · split at chosen
      · simp_all
      · split at chosen
        · cases chosen
        · split at chosen
          · cases chosen
          · split at chosen <;> cases chosen

theorem quotesFor_eq_tripleSingle {text : List Char} (chosen : quotesFor text = .tripleSingle) :
    hasControl text = false ∧ longestRun '\'' 0 text ≤ 2 := by
  simp only [quotesFor] at chosen
  split at chosen
  · cases chosen
  · split at chosen
    · cases chosen
    · split at chosen
      · cases chosen
      · split at chosen
        · simp_all
        · split at chosen <;> cases chosen

/-- The text between double quotes never starts with one. -/
theorem doubleBody_ne_cons_quote (text more : List Char) : doubleBody text ≠ '"' :: more := by
  cases text with
  | nil => simp [doubleBody]
  | cons c text =>
      show (if c = '"' then _ else if c = '\n' then _ else _) ++ doubleBody text ≠ _
      split
      · simp
      · rename_i notQuote
        split
        · simp
        · obtain ⟨first, rest, starts, notQuote', -⟩ := escaped_eq_cons notQuote
          rw [starts]
          simp [notQuote']

theorem tripleBody_head {text rest : List Char} (unbroken : '\n' ∉ text) :
    ∀ c ∈ (tripleBody 0 text ++ '"' :: rest).head?, isPlain c = true := by
  cases text with
  | nil => simp [tripleBody, isPlain, isControl]
  | cons c text =>
      rw [tripleBody]
      split
      · simp [isPlain, isControl]
      · rename_i notQuote
        obtain ⟨first, more, starts, -, plain⟩ := escaped_eq_cons notQuote
        rw [if_neg (by grind), starts]
        simp [plain]

/-- A text that is written as a string is read back, if no further quote follows it. -/
theorem readQuoted_quote (text : List Char) {rest : List Char}
    (closed : ∀ c ∈ rest.head?, c ≠ '"' ∧ c ≠ '\'') :
    readQuoted (quote text ++ rest) = some (text, rest) := by
  have noDouble : ∀ more, rest ≠ '"' :: more := by
    rintro more rfl
    exact (closed '"' rfl).1 rfl
  have noSingle : ∀ more, rest ≠ '\'' :: more := by
    rintro more rfl
    exact (closed '\'' rfl).2 rfl
  unfold quote
  cases chosen : quotesFor text with
  | double =>
      show readQuoted ('"' :: (doubleBody text ++ ['"'] ++ rest)) = _
      rw [List.append_assoc, readQuoted]
      · exact readDouble_doubleBody text rest
      · intro more same
        cases body : doubleBody text with
        | nil => simp_all
        | cons c tail =>
            rw [body] at same
            exact doubleBody_ne_cons_quote text tail (by simp_all)
  | single =>
      obtain ⟨nonempty, free, absent, unbroken⟩ := quotesFor_eq_single chosen
      show readQuoted ('\'' :: (text ++ ['\''] ++ rest)) = _
      rw [List.append_assoc, readQuoted]
      · exact readSingle_append (isPlain_of_unbroken free unbroken) absent rest
      · intro more same
        cases text with
        | nil => exact nonempty rfl
        | cons c tail => simp_all
  | tripleDouble =>
      show readTripleDouble false (dropBreak (leadingBreak text ++ _ ++ _ ++ rest)) = _
      rw [List.append_assoc, List.append_assoc, dropBreak_leadingBreak]
      · exact readTripleDouble_tripleBody noDouble text (Nat.zero_le 2)
      · exact tripleBody_head
  | tripleSingle =>
      obtain ⟨free, short⟩ := quotesFor_eq_tripleSingle chosen
      show readTripleSingle (dropBreak (leadingBreak text ++ _ ++ _ ++ rest)) = _
      rw [List.append_assoc, List.append_assoc, dropBreak_leadingBreak]
      · exact readTripleSingle_append noSingle (isPlain_of_hasControl free) short
      · intro unbroken c first
        cases text with
        | nil =>
            cases first
            rfl
        | cons d tail =>
            cases first
            exact isPlain_of_unbroken free unbroken _ List.mem_cons_self

end ImageFormula.Toml
