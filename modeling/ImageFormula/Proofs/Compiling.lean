import Mathlib.Data.List.Forall2
import ImageFormula.Equation
import ImageFormula.Proofs.Height

/-!
# From a text to an equation

What a word of an image formula stands for depends on the bound of the slots only, and what it
records on its own slot only (`Scope.readWord_images`). So a text compiles exactly if its lexemes
read as tokens, one by one, that the grammar derives a tree from which is not too high; and the
usage lists the images of that tree (`Limits.compile_eq_ok_iff`).
-/

namespace ImageFormula

/-! ## Words -/

/-- What an identifier stands for in an image formula. -/
def Scope.imageValue? (bound : Nat) (identifier : String) : Option Expr :=
  match constant? identifier with
  | some value => some (.number value)
  | none =>
    match identifier.toList with
    | 'I' :: index => (slot? bound index).map .image
    | _ => none

/-- What a word stands for in an image formula. -/
def Scope.wordValue? (bound : Nat) (word : String) : Option Expr :=
  match word.toList with
  | first :: _ =>
    if first.isAlpha then imageValue? bound word
    else (Decimal.parse? word.toList).map fun decimal => .number decimal.narrowed
  | [] => none

/-- The usage after the references of a list. -/
def Usage.recordAll (usage : Usage) (slots : List Nat) : Usage := slots.foldl Usage.record usage

namespace Scope

/-- A scope's answer to a word of the given value: the value with its slot recorded, or a fault that
leaves the usage as it was. -/
inductive Answers (bound : Nat) (usage : Usage) : Option Expr → Except Fault Expr × Scope → Prop
  | value {expr : Expr} :
      Answers bound usage (some expr) (.ok expr, images bound (usage.recordAll expr.images))
  | fault {fault : Fault} : Answers bound usage none (.error fault, images bound usage)

theorem resolve_images (bound : Nat) (usage : Usage) (identifier : String) (span : Span) :
    Answers bound usage (imageValue? bound identifier)
      ((images bound usage).resolve identifier span) := by
  unfold resolve imageValue?
  cases constant? identifier with
  | some value => exact .value
  | none =>
      by_cases isImage : ∃ index, identifier.toList = 'I' :: index
      · obtain ⟨index, isImage⟩ := isImage
        simp only [isImage]
        cases slot? bound index with
        | some slot => exact .value
        | none => exact .fault
      · have other (index : List Char) (same : identifier.toList = 'I' :: index) : False :=
          isImage ⟨index, same⟩
        simp only
        exact .fault

/-- The value of a word does not depend on the words before it. -/
theorem readWord_images (bound : Nat) (usage : Usage) (word : String) (span : Span) :
    Answers bound usage (wordValue? bound word) ((images bound usage).readWord word span) := by
  unfold readWord wordValue?
  cases chars : word.toList with
  | nil => exact .fault
  | cons first rest =>
      simp only
      cases first.isAlpha with
      | true => exact resolve_images bound usage word span
      | false =>
          cases Decimal.parse? (first :: rest) with
          | some decimal => exact .value
          | none => exact .fault

theorem wordValue?_of_readWord {bound : Nat} {usage : Usage} {word : String} {span : Span}
    {expr : Expr} {after : Scope}
    (read : (images bound usage).readWord word span = (.ok expr, after)) :
    wordValue? bound word = some expr := by
  have answers := readWord_images bound usage word span
  rw [read] at answers
  generalize wordValue? bound word = value at answers
  cases answers
  rfl

theorem wordValue?_constant {bound : Nat} {word : String} {first : Char} {rest : List Char}
    {value : Binary32} (chars : word.toList = first :: rest) (alpha : first.isAlpha = true)
    (constant : constant? word = some value) : wordValue? bound word = some (.number value) := by
  simp only [wordValue?, chars, alpha, if_true, imageValue?, constant]

theorem slot?_lt {bound slot : Nat} {index : List Char} (isSlot : slot? bound index = some slot) :
    slot < bound := by
  unfold slot? at isSlot
  split at isSlot
  · split at isSlot
    · rename_i below
      rwa [← Option.some.inj isSlot]
    · contradiction
  · contradiction

/-- The values of words are images below the bound, literals and constants. -/
theorem wordValue?_eq_some {bound : Nat} {word : String} {expr : Expr}
    (value : wordValue? bound word = some expr) :
    (∃ slot, expr = .image slot ∧ slot < bound) ∨
      (∃ decimal : Decimal, expr = .number decimal.narrowed) ∨
      ∃ number, constant? word = some number ∧ expr = .number number := by
  unfold wordValue? at value
  split at value
  · split at value
    · unfold imageValue? at value
      split at value
      · rename_i number constant
        exact .inr (.inr ⟨number, constant, (Option.some.inj value).symm⟩)
      · split at value
        · obtain ⟨slot, isSlot, rfl⟩ := Option.map_eq_some_iff.mp value
          exact .inl ⟨slot, rfl, slot?_lt isSlot⟩
        · contradiction
    · obtain ⟨decimal, -, rfl⟩ := Option.map_eq_some_iff.mp value
      exact .inr (.inl ⟨decimal, rfl⟩)
  · contradiction

/-- The values of words are images below the bound and numbers. -/
theorem image_or_number_of_wordValue? {bound : Nat} {word : String} {expr : Expr}
    (value : wordValue? bound word = some expr) :
    (∃ slot, expr = .image slot ∧ slot < bound) ∨ ∃ number, expr = .number number := by
  rcases wordValue?_eq_some value with image | ⟨decimal, isNumber⟩ | ⟨number, -, isNumber⟩
  · exact .inl image
  · exact .inr ⟨_, isNumber⟩
  · exact .inr ⟨_, isNumber⟩

end Scope

/-! ## Lexemes -/

/-- The token of a lexeme in an image formula. -/
def LexemeKind.token? (bound : Nat) : LexemeKind → Option TokenKind
  | word text => (Scope.wordValue? bound text).map .value
  | operator op => some (.operator op)
  | bracketOpen => some .bracketOpen
  | bracketClose => some .bracketClose
  | separator => some .separator
  | functionStart name => some (.functionStart name)

/-- The slots that a token refers to. -/
def TokenKind.images : TokenKind → List Nat
  | value expr => expr.images
  | _ => []

/-- The slots that a token sequence refers to, in order. -/
def tokenImages (tokens : List Token) : List Nat := tokens.flatMap fun token => token.kind.images

theorem tokenImages_cons (token : Token) (tokens : List Token) :
    tokenImages (token :: tokens) = token.kind.images ++ tokenImages tokens := rfl

theorem Usage.recordAll_append (usage : Usage) (left right : List Nat) :
    usage.recordAll (left ++ right) = (usage.recordAll left).recordAll right :=
  List.foldl_append

namespace Lexeme

/-- A lexeme reads as a token in its place. -/
def Reads (bound : Nat) (lexeme : Lexeme) (token : Token) : Prop :=
  ∃ kind, lexeme.kind.token? bound = some kind ∧ token = Token.ofKind kind lexeme.span

theorem token_images {lexeme : Lexeme} {bound : Nat} {kind : TokenKind}
    (isKind : lexeme.kind.token? bound = some kind) (usage : Usage) :
    lexeme.token (.images bound usage) =
      (.ok (Token.ofKind kind lexeme.span), .images bound (usage.recordAll kind.images)) := by
  unfold token
  cases isLexeme : lexeme.kind with
  | word text =>
      rw [isLexeme] at isKind
      obtain ⟨expr, value, rfl⟩ := Option.map_eq_some_iff.mp isKind
      have answers := Scope.readWord_images bound usage text lexeme.span
      rw [value] at answers
      simp only
      generalize (Scope.images bound usage).readWord text lexeme.span = answer at answers
      cases answers
      rfl
  | operator op | bracketOpen | bracketClose | separator | functionStart name =>
      rw [isLexeme] at isKind
      obtain rfl := Option.some.inj isKind
      rfl

theorem token_images_error {lexeme : Lexeme} {bound : Nat}
    (unread : lexeme.kind.token? bound = none) (usage : Usage) :
    ∃ fault, lexeme.token (.images bound usage) = (.error fault, .images bound usage) := by
  unfold token
  cases isLexeme : lexeme.kind with
  | word text =>
      rw [isLexeme] at unread
      have value := Option.map_eq_none_iff.mp unread
      have answers := Scope.readWord_images bound usage text lexeme.span
      rw [value] at answers
      simp only
      generalize (Scope.images bound usage).readWord text lexeme.span = answer at answers
      cases answers
      exact ⟨_, rfl⟩
  | operator op | bracketOpen | bracketClose | separator | functionStart name =>
      rw [isLexeme] at unread
      contradiction

/-- Lexemes are read one by one, and the slots they refer to are recorded in order. -/
theorem tokens_eq_ok_iff {lexemes : List Lexeme} {bound : Nat} {usage : Usage}
    {tokens' : List Token} {after : Scope} :
    tokens lexemes (.images bound usage) = (.ok tokens', after) ↔
      List.Forall₂ (Reads bound) lexemes tokens' ∧
        after = .images bound (usage.recordAll (tokenImages tokens')) := by
  induction lexemes generalizing usage tokens' after with
  | nil =>
      constructor
      · rintro ⟨⟩
        exact ⟨.nil, rfl⟩
      · rintro ⟨⟨⟩, rfl⟩
        rfl
  | cons lexeme lexemes ih =>
      cases isKind : lexeme.kind.token? bound with
      | none =>
          obtain ⟨fault, failed⟩ := token_images_error isKind usage
          simp [tokens, failed, List.forall₂_cons_left_iff, Reads, isKind]
      | some kind =>
          simp only [tokens, token_images isKind]
          constructor
          · intro read
            split at read
            · simp at read
            · rename_i rest final isRest
              obtain ⟨isTokens, rfl⟩ := Prod.mk.inj read
              obtain rfl := Except.ok.inj isTokens
              obtain ⟨reads, rfl⟩ := ih.mp isRest
              refine ⟨.cons ⟨kind, isKind, rfl⟩ reads, ?_⟩
              rw [tokenImages_cons, Usage.recordAll_append]
              rfl
          · rintro ⟨reads, rfl⟩
            cases reads with
            | cons first reads =>
                obtain ⟨kind', isKind', rfl⟩ := first
                obtain rfl := Option.some.inj (isKind.symm.trans isKind')
                rw [ih.mpr ⟨reads, rfl⟩, tokenImages_cons, Usage.recordAll_append]
                rfl

/-- The tokens of a formula are leaves of depth one, and others of depth zero. -/
theorem Reads.depth {bound : Nat} {lexeme : Lexeme} {token : Token}
    (reads : Reads bound lexeme token) : token.depth = token.kind.height := by
  obtain ⟨kind, isKind, rfl⟩ := reads
  cases isLexeme : lexeme.kind with
  | word text =>
      rw [isLexeme] at isKind
      obtain ⟨expr, value, rfl⟩ := Option.map_eq_some_iff.mp isKind
      rcases Scope.image_or_number_of_wordValue? value with ⟨slot, rfl, -⟩ | ⟨number, rfl⟩ <;> rfl
  | operator op | bracketOpen | bracketClose | separator | functionStart name =>
      rw [isLexeme] at isKind
      obtain rfl := Option.some.inj isKind
      rfl

/-- Every token is read from a lexeme. -/
theorem exists_lexeme {reads : Lexeme → Token → Prop} {lexemes : List Lexeme}
    {tokens' : List Token} {token : Token} (each : List.Forall₂ reads lexemes tokens')
    (member : token ∈ tokens') : ∃ lexeme ∈ lexemes, reads lexeme token := by
  induction each with
  | nil => simp at member
  | @cons lexeme _ _ _ first _ ih =>
      rcases List.mem_cons.mp member with rfl | member
      · exact ⟨lexeme, .head _, first⟩
      · obtain ⟨lexeme, inRest, reads⟩ := ih member
        exact ⟨lexeme, .tail _ inRest, reads⟩

/-- The value of a token is the value of a word. -/
theorem Reads.exists_word {bound : Nat} {lexeme : Lexeme} {token : Token} {expr : Expr}
    (reads : Reads bound lexeme token) (isValue : token.kind = .value expr) :
    ∃ word, Scope.wordValue? bound word = some expr := by
  obtain ⟨kind, isKind, rfl⟩ := reads
  obtain rfl : kind = .value expr := isValue
  cases isLexeme : lexeme.kind with
  | word text =>
      rw [isLexeme] at isKind
      obtain ⟨found, value, same⟩ := Option.map_eq_some_iff.mp isKind
      rw [TokenKind.value.inj same] at value
      exact ⟨text, value⟩
  | operator op | bracketOpen | bracketClose | separator | functionStart name =>
      simp [isLexeme, LexemeKind.token?] at isKind

/-- The slots that tokens refer to are below the bound. -/
theorem images_lt {bound : Nat} {lexemes : List Lexeme} {tokens' : List Token}
    (reads : List.Forall₂ (Reads bound) lexemes tokens') :
    ∀ slot ∈ tokenImages tokens', slot < bound := by
  intro slot member
  obtain ⟨token, inTokens, inKind⟩ := List.mem_flatMap.mp member
  obtain ⟨lexeme, -, isToken⟩ := exists_lexeme reads inTokens
  cases isKind : token.kind with
  | value expr =>
      rw [isKind] at inKind
      obtain ⟨word, value⟩ := isToken.exists_word isKind
      rcases Scope.image_or_number_of_wordValue? value with ⟨slot', rfl, below⟩ | ⟨number, rfl⟩
      · rwa [List.mem_singleton.mp inKind]
      · cases inKind
  | operator | functionStart | bracketOpen | bracketClose | separator =>
      rw [isKind] at inKind
      cases inKind

/-- Lexemes of kinds that can be read have tokens. -/
theorem exists_tokens {bound : Nat} {lexemes : List Lexeme} {kinds : List TokenKind}
    (reads : List.Forall₂ (fun kind token => LexemeKind.token? bound kind = some token)
      (lexemes.map Lexeme.kind) kinds) :
    ∃ tokens, List.Forall₂ (Reads bound) lexemes tokens ∧ tokens.map Token.kind = kinds := by
  induction lexemes generalizing kinds with
  | nil =>
      cases reads
      exact ⟨[], .nil, rfl⟩
  | cons lexeme lexemes ih =>
      cases reads with
      | @cons _ kind _ kinds isKind reads =>
          obtain ⟨tokens, reads, isKinds⟩ := ih reads
          exact ⟨Token.ofKind kind lexeme.span :: tokens, .cons ⟨kind, isKind, rfl⟩ reads,
            by rw [List.map_cons, isKinds]; rfl⟩

theorem measured_of_reads {bound : Nat} {lexemes : List Lexeme} {tokens' : List Token}
    (reads : List.Forall₂ (Reads bound) lexemes tokens') : Measured tokens' := by
  intro token member
  obtain ⟨lexeme, -, isToken⟩ := exists_lexeme reads member
  exact isToken.depth

end Lexeme

theorem Scope.tokens_eq_ok_iff {bound : Nat} {usage : Usage} {text : String} {tokens : List Token}
    {after : Scope} :
    (images bound usage).tokens text = (.ok tokens, after) ↔
      tokens ≠ [] ∧ List.Forall₂ (Lexeme.Reads bound) (Lexeme.cut text) tokens ∧
        after = images bound (usage.recordAll (tokenImages tokens)) := by
  unfold Scope.tokens
  cases cut : Lexeme.cut text with
  | nil =>
      constructor
      · rintro ⟨⟩
      · rintro ⟨nonempty, ⟨⟩, -⟩
        exact absurd rfl nonempty
  | cons lexeme lexemes =>
      simp only [Lexeme.tokens_eq_ok_iff]
      constructor
      · rintro ⟨reads, isAfter⟩
        refine ⟨?_, reads, isAfter⟩
        rintro rfl
        cases reads
      · exact fun read => read.2

/-! ## Equations -/

theorem Derives.ne_nil {tokens : List Token} {expr : Expr} (derives : Derives .sum tokens expr) :
    tokens ≠ [] := by
  rintro rfl
  exact absurd (derives_sum_iff_read.mp derives) (by simp [Reading.read, Reading.result?,
    Reading.start, Pending.start])

/-- The images of a tree are those of its tokens, in the same order. -/
theorem Derives.images {level : Level} {tokens : List Token} {expr : Expr}
    (derives : Derives level tokens expr) : expr.images = tokenImages tokens := by
  induction derives <;>
    simp_all [Expr.images, Expr.negate, tokenImages, TokenKind.images]

namespace Limits

variable {limits : Limits} {text : String} {equation : Equation}

/-- A text compiles to the tree of its tokens, if there is one and it is not too high. -/
theorem compile_eq_ok_iff :
    limits.compile text = .ok equation ↔
      ∃ tokens, List.Forall₂ (Lexeme.Reads limits.slots) (Lexeme.cut text) tokens ∧
        Derives .sum tokens equation.root ∧
        (equation.root.height ≤ limits.depth ∨ tokens.length = 1) ∧
        equation.usage = Usage.empty.recordAll equation.root.images := by
  unfold compile
  constructor
  · intro compiled
    split at compiled
    · contradiction
    rename_i tokens scope read
    obtain ⟨-, reads, rfl⟩ := Scope.tokens_eq_ok_iff.mp read
    split at compiled
    · contradiction
    rename_i root ran
    obtain rfl := Except.ok.inj compiled
    obtain ⟨derives, low⟩ := (Engine.run_eq_ok_iff (Lexeme.measured_of_reads reads)).mp ran
    exact ⟨tokens, reads, derives, low, by rw [derives.images]; rfl⟩
  · rintro ⟨tokens, reads, derives, low, isUsage⟩
    have read : limits.scope.tokens text =
        (.ok tokens, .images limits.slots (Usage.empty.recordAll (tokenImages tokens))) :=
      Scope.tokens_eq_ok_iff.mpr ⟨derives.ne_nil, reads, rfl⟩
    have ran : limits.engine.run tokens = .ok equation.root :=
      (Engine.run_eq_ok_iff (Lexeme.measured_of_reads reads)).mpr ⟨derives, low⟩
    simp only [read, ran, Scope.usage, ← derives.images, ← isUsage]

end Limits

end ImageFormula
