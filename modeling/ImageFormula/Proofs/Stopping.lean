import Mathlib.Data.List.Sort
import ImageFormula.Proofs.Listing
import ImageFormula.Proofs.Tiling

/-!
# Where reading stops

A formula is cut into lexemes, and its words are looked up from left to right. Reading stops at the
first word that stands for nothing: its fault names this word with its place, and the scope has
recorded the images to the left of it, and nothing else.

* **one word**: a lookup either gives a value and records its slot, or gives the fault of the word
  and records nothing (`Scope.readWord_of_none`, `Lexeme.token_images`);
* **a run**: what is recorded is the list of the slots that were passed
  (`Lexeme.tokens_eq_error_iff`, `Lexeme.tokens_eq_ok_iff_resolves`);
* **the report** of such a list has its first, least and greatest slot and its set, and there is no
  other report of it (`Scope.records_iff`).

Together they are `Scope.tokens_stop`.
-/

namespace ImageFormula

/-! ## Reports -/

theorem SlotSet.pairwise_insert (slot : Nat) {set : SlotSet} (sorted : set.Pairwise (· < ·)) :
    (SlotSet.insert slot set).Pairwise (· < ·) := by
  induction set with
  | nil => exact List.pairwise_singleton _ _
  | cons first more ih =>
      obtain ⟨least, rest⟩ := List.pairwise_cons.mp sorted
      rw [insert]
      split
      · rename_i below
        refine List.pairwise_cons.mpr ⟨?_, sorted⟩
        intro other member
        rcases List.mem_cons.mp member with rfl | member
        · exact below
        · exact Nat.lt_trans below (least other member)
      · split
        · exact sorted
        · refine List.pairwise_cons.mpr ⟨?_, ih rest⟩
          intro other member
          rcases mem_insert.mp member with rfl | member
          · omega
          · exact least other member

theorem SlotSet.pairwise_ofList (slots : List Nat) : (ofList slots).Pairwise (· < ·) := by
  induction slots using List.reverseRecOn with
  | nil => exact .nil
  | append_singleton slots last ih =>
      rw [ofList_concat]
      exact pairwise_insert last ih

/-- A usage reports a list of slots: the first, the least and the greatest of them, and their set in
increasing order. -/
structure Usage.Reports (usage : Usage) (slots : List Nat) : Prop where
  first : usage.first = slots.head?
  least : usage.least = slots.min?
  greatest : usage.greatest = slots.max?
  mem_iff : ∀ slot, slot ∈ usage.slots ↔ slot ∈ slots
  sorted : usage.slots.Pairwise (· < ·)

theorem Usage.reports_iff {usage : Usage} {slots : List Nat} :
    usage.Reports slots ↔ usage = ofList slots := by
  constructor
  · intro reports
    have same : usage.slots = SlotSet.ofList slots := by
      refine reports.sorted.eq_of_mem_iff (SlotSet.pairwise_ofList slots) ?_
      intro slot
      rw [reports.mem_iff, SlotSet.mem_ofList]
    rw [ofList, ← reports.first, ← reports.least, ← reports.greatest, ← same]
  · rintro rfl
    exact ⟨rfl, rfl, rfl, fun slot => mem_slots_ofList, SlotSet.pairwise_ofList slots⟩

namespace Scope

/-- A scope of images that has met the slots of a list, in this order. -/
def Records (scope : Scope) (bound : Nat) (slots : List Nat) : Prop :=
  ∃ usage, scope = images bound usage ∧ usage.Reports slots

theorem records_iff {scope : Scope} {bound : Nat} {slots : List Nat} :
    scope.Records bound slots ↔ scope = images bound (Usage.empty.recordAll slots) := by
  simp only [Records, Usage.reports_iff, Usage.recordAll_empty, exists_eq_right]

/-! ## Words -/

/-- The fault of a word that stands for nothing in an image formula. -/
def wordFault (word : String) (span : Span) : Fault :=
  match word.toList with
  | 'I' :: _ => .badImageIndex word span
  | _ => .badNumber word span

theorem wordFault_of_ne {word : String} (noImage : ∀ index, word.toList ≠ 'I' :: index)
    (span : Span) : wordFault word span = .badNumber word span := by
  unfold wordFault
  split
  · rename_i index isImage
    exact absurd isImage (noImage index)
  · rfl

theorem resolve_of_none {bound : Nat} {identifier : String}
    (unknown : imageValue? bound identifier = none) (usage : Usage) (span : Span) :
    (images bound usage).resolve identifier span =
      (.error (wordFault identifier span), images bound usage) := by
  unfold imageValue? at unknown
  unfold resolve
  cases isConstant : constant? identifier with
  | some value => simp [isConstant] at unknown
  | none =>
      rw [isConstant] at unknown
      by_cases isImage : ∃ index, identifier.toList = 'I' :: index
      · obtain ⟨index, isImage⟩ := isImage
        simp only [isImage, Option.map_eq_none_iff] at unknown
        simp only [isImage, unknown, wordFault]
      · have noImage (index : List Char) (same : identifier.toList = 'I' :: index) : False :=
          isImage ⟨index, same⟩
        rw [wordFault_of_ne noImage]
        simp only

/-- A word that stands for nothing is refused with its own fault, and nothing is recorded. -/
theorem readWord_of_none {bound : Nat} {word : String} (unknown : wordValue? bound word = none)
    (usage : Usage) (span : Span) : (images bound usage).readWord word span =
      (.error (wordFault word span), images bound usage) := by
  unfold wordValue? at unknown
  unfold readWord
  cases chars : word.toList with
  | nil => rw [wordFault_of_ne (by simp [chars])]
  | cons first rest =>
      rw [chars] at unknown
      cases isAlpha : first.isAlpha with
      | true =>
          simp only [isAlpha, if_true] at unknown ⊢
          exact resolve_of_none unknown usage span
      | false =>
          simp only [isAlpha, Bool.false_eq_true, if_false, Option.map_eq_none_iff] at unknown ⊢
          have noImage (index : List Char) (same : word.toList = 'I' :: index) : False := by
            obtain rfl : first = 'I' := (List.cons.inj (chars.symm.trans same)).1
            contradiction
          rw [unknown, wordFault_of_ne noImage]

theorem Answers.of_some {bound : Nat} {usage : Usage} {expr : Expr}
    {answer : Except Fault Expr × Scope} (answers : Answers bound usage (some expr) answer) :
    answer = (.ok expr, images bound (usage.recordAll expr.images)) := by
  cases answers
  rfl

/-- A word is read as what it stands for, and the slot of an image is recorded. -/
theorem readWord_eq (bound : Nat) (usage : Usage) (word : String) (span : Span) :
    (images bound usage).readWord word span =
      match wordValue? bound word with
      | some expr => (.ok expr, images bound (usage.recordAll expr.images))
      | none => (.error (wordFault word span), images bound usage) := by
  have answers := readWord_images bound usage word span
  cases value : wordValue? bound word with
  | none => exact readWord_of_none value usage span
  | some expr =>
      rw [value] at answers
      exact answers.of_some

/-- A lookup that fails changes nothing, in any scope. -/
theorem resolve_eq_error {scope after : Scope} {identifier : String} {span : Span} {fault : Fault}
    (failed : scope.resolve identifier span = (.error fault, after)) : after = scope := by
  unfold resolve at failed
  repeat' split at failed
  all_goals cases failed
  all_goals rfl

end Scope

/-! ## Lexemes -/

/-- What a lexeme is in every scope. A word is left open. -/
def LexemeKind.shape? : LexemeKind → Option TokenKind
  | word _ => none
  | operator op => some (.operator op)
  | bracketOpen => some .bracketOpen
  | bracketClose => some .bracketClose
  | separator => some .separator
  | functionStart name => some (.functionStart name)

/-- What a token is apart from its value. -/
def TokenKind.shape? : TokenKind → Option TokenKind
  | value _ => none
  | kind => some kind

namespace Lexeme

/-- A lexeme stands for something: it is no word, or a word with a value. -/
def Resolves (bound : Nat) (lexeme : Lexeme) : Prop :=
  ∀ word, lexeme.kind = .word word → ∃ expr, Scope.wordValue? bound word = some expr

/-- The slot that a word refers to. -/
def slot? (bound : Nat) (lexeme : Lexeme) : Option Nat :=
  match lexeme.kind with
  | .word word =>
    match Scope.wordValue? bound word with
    | some (.image slot) => some slot
    | _ => none
  | _ => none

/-- The slots that lexemes refer to, from left to right. -/
def slots (bound : Nat) (lexemes : List Lexeme) : List Nat := lexemes.filterMap (slot? bound)

variable {bound : Nat} {lexeme : Lexeme}

theorem resolves_or_word (bound : Nat) (lexeme : Lexeme) :
    (∃ kind, lexeme.kind.token? bound = some kind) ∨
      ∃ word span, lexeme = ⟨.word word, span⟩ ∧ Scope.wordValue? bound word = none := by
  obtain ⟨kind, span⟩ := lexeme
  cases kind with
  | word word =>
      cases value : Scope.wordValue? bound word with
      | none => exact .inr ⟨word, span, rfl, value⟩
      | some expr => exact .inl ⟨.value expr, by simp [LexemeKind.token?, value]⟩
  | operator | bracketOpen | bracketClose | separator | functionStart => exact .inl ⟨_, rfl⟩

theorem resolves_iff : lexeme.Resolves bound ↔ ∃ kind, lexeme.kind.token? bound = some kind := by
  unfold Resolves
  cases lexeme.kind with
  | word word => simp [LexemeKind.token?]
  | operator | bracketOpen | bracketClose | separator | functionStart =>
      simp [LexemeKind.token?]

instance : Decidable (lexeme.Resolves bound) :=
  decidable_of_iff ((lexeme.kind.token? bound).isSome = true)
    (Option.isSome_iff_exists.trans resolves_iff.symm)

/-- The slots of a token are those of its lexeme. -/
theorem images_eq_slot? {kind : TokenKind} (isKind : lexeme.kind.token? bound = some kind) :
    kind.images = (lexeme.slot? bound).toList := by
  unfold slot?
  cases isLexeme : lexeme.kind with
  | word word =>
      rw [isLexeme] at isKind
      obtain ⟨expr, value, rfl⟩ := Option.map_eq_some_iff.mp isKind
      rcases Scope.image_or_number_of_wordValue? value with ⟨slot, rfl, -⟩ | ⟨number, rfl⟩
      · simp [value, TokenKind.images, Expr.images]
      · simp [value, TokenKind.images, Expr.images]
  | operator | bracketOpen | bracketClose | separator | functionStart =>
      rw [isLexeme] at isKind
      obtain rfl := Option.some.inj isKind
      rfl

theorem slots_cons {kind : TokenKind} (isKind : lexeme.kind.token? bound = some kind)
    (more : List Lexeme) : slots bound (lexeme :: more) = kind.images ++ slots bound more := by
  rw [images_eq_slot? isKind, slots, List.filterMap_cons]
  cases lexeme.slot? bound <;> rfl

theorem tokenImages_eq_slots {lexemes : List Lexeme} {read : List Token}
    (reads : List.Forall₂ (Reads bound) lexemes read) : tokenImages read = slots bound lexemes := by
  induction reads with
  | nil => rfl
  | cons first _ ih =>
      obtain ⟨kind, isKind, rfl⟩ := first
      rw [tokenImages_cons, slots_cons isKind, ih]
      rfl

theorem exists_reads_iff {lexemes : List Lexeme} :
    (∃ read, List.Forall₂ (Reads bound) lexemes read) ↔
      ∀ lexeme ∈ lexemes, lexeme.Resolves bound := by
  induction lexemes with
  | nil => simp
  | cons lexeme more ih =>
      rw [List.forall_mem_cons, ← ih, resolves_iff]
      constructor
      · rintro ⟨read, reads⟩
        cases reads with
        | cons first rest =>
            obtain ⟨kind, isKind, -⟩ := first
            exact ⟨⟨kind, isKind⟩, _, rest⟩
      · rintro ⟨⟨kind, isKind⟩, read, rest⟩
        exact ⟨_, .cons ⟨kind, isKind, rfl⟩ rest⟩

/-! ## Runs -/

/-- Reading goes on behind a lexeme that stands for something. -/
theorem tokens_cons_of_some {kind : TokenKind} (isKind : lexeme.kind.token? bound = some kind)
    {more : List Lexeme} {usage : Usage} {fault : Fault} {after : Scope} :
    tokens (lexeme :: more) (.images bound usage) = (.error fault, after) ↔
      tokens more (.images bound (usage.recordAll kind.images)) = (.error fault, after) := by
  simp only [tokens, token_images isKind]
  split
  · rename_i isRest
    rw [isRest]
  · rename_i isRest
    rw [isRest]
    simp

/-- Reading stops at a word that stands for nothing. -/
theorem tokens_cons_of_none {word : String} (unknown : Scope.wordValue? bound word = none)
    (span : Span) (more : List Lexeme) (usage : Usage) :
    tokens (⟨.word word, span⟩ :: more) (.images bound usage) =
      (.error (Scope.wordFault word span), .images bound usage) := by
  simp only [tokens, token, Scope.readWord_of_none unknown]

/-- Reading stops at the first word that stands for nothing, with the slots before it recorded. -/
theorem tokens_eq_error_iff {lexemes : List Lexeme} {usage : Usage} {fault : Fault}
    {after : Scope} : tokens lexemes (.images bound usage) = (.error fault, after) ↔
      ∃ before word span rest, lexemes = before ++ ⟨.word word, span⟩ :: rest ∧
        (∀ lexeme ∈ before, lexeme.Resolves bound) ∧ Scope.wordValue? bound word = none ∧
        fault = Scope.wordFault word span ∧
        after = .images bound (usage.recordAll (slots bound before)) := by
  induction lexemes generalizing usage with
  | nil => simp [tokens]
  | cons lexeme more ih =>
      rcases resolves_or_word bound lexeme with ⟨kind, isKind⟩ | ⟨word, span, rfl, unknown⟩
      · rw [tokens_cons_of_some isKind, ih]
        constructor
        · rintro ⟨before, word, span, rest, rfl, resolves, unknown, isFault, isAfter⟩
          refine ⟨lexeme :: before, word, span, rest, rfl, ?_, unknown, isFault, ?_⟩
          · exact List.forall_mem_cons.mpr ⟨resolves_iff.mpr ⟨kind, isKind⟩, resolves⟩
          · rw [slots_cons isKind, Usage.recordAll_append, isAfter]
        · rintro ⟨before, word, span, rest, same, resolves, unknown, isFault, isAfter⟩
          cases before with
          | nil =>
              obtain ⟨rfl, -⟩ := List.cons.inj same
              simp [LexemeKind.token?, unknown] at isKind
          | cons first before =>
              obtain ⟨rfl, rfl⟩ := List.cons.inj same
              refine ⟨before, word, span, rest, rfl, ?_, unknown, isFault, ?_⟩
              · exact (List.forall_mem_cons.mp resolves).2
              · rw [isAfter, slots_cons isKind, Usage.recordAll_append]
      · rw [tokens_cons_of_none unknown]
        constructor
        · rintro ⟨⟩
          exact ⟨[], word, span, more, rfl, by simp, unknown, rfl, rfl⟩
        · rintro ⟨before, word', span', rest, same, resolves, -, rfl, rfl⟩
          cases before with
          | nil =>
              obtain ⟨⟨⟩, -⟩ := List.cons.inj same
              rfl
          | cons first before =>
              obtain ⟨rfl, -⟩ := List.cons.inj same
              obtain ⟨expr, known⟩ := resolves _ (.head _) word rfl
              rw [unknown] at known
              contradiction

/-- Reading comes to an end if every lexeme stands for something, with all the slots recorded. -/
theorem tokens_eq_ok_iff_resolves {lexemes : List Lexeme} {usage : Usage} {after : Scope} :
    (∃ read, tokens lexemes (.images bound usage) = (.ok read, after)) ↔
      (∀ lexeme ∈ lexemes, lexeme.Resolves bound) ∧
        after = .images bound (usage.recordAll (slots bound lexemes)) := by
  simp only [tokens_eq_ok_iff]
  constructor
  · rintro ⟨read, reads, rfl⟩
    exact ⟨exists_reads_iff.mp ⟨read, reads⟩, by rw [tokenImages_eq_slots reads]⟩
  · rintro ⟨resolves, rfl⟩
    obtain ⟨read, reads⟩ := exists_reads_iff.mpr resolves
    exact ⟨read, reads, by rw [tokenImages_eq_slots reads]⟩

variable {scope : Scope} {token : Token}

theorem shape_of_given (given : (lexeme.token scope).1 = .ok token) :
    token.kind.shape? = lexeme.kind.shape? := by
  unfold Lexeme.token at given
  cases isLexeme : lexeme.kind with
  | word text =>
      simp only [isLexeme] at given
      split at given
      · cases given
        rfl
      · cases given
  | operator | bracketOpen | bracketClose | separator | functionStart =>
      simp only [isLexeme] at given
      cases given
      rfl

/-- What is read from lexemes differs from scope to scope only in the values of its words. -/
theorem shapes_of_tokens {lexemes : List Lexeme} {read : List Token} {after : Scope}
    (isRead : tokens lexemes scope = (.ok read, after)) :
    read.map (fun token => (token.kind.shape?, token.span)) =
      lexemes.map fun lexeme => (lexeme.kind.shape?, lexeme.span) := by
  have given := tokens_forall₂ isRead
  clear isRead
  induction given with
  | nil => rfl
  | cons first _ ih =>
      rw [List.map_cons, List.map_cons, shape_of_given first, span_of_given first, ih]

end Lexeme

/-! ## Formulas -/

namespace Scope

theorem tokens_of_nil {text : String} (empty : Lexeme.cut text = []) (scope : Scope) :
    scope.tokens text = (.error .emptyFormula, scope) := by
  unfold tokens
  rw [empty]

theorem tokens_of_ne_nil {text : String} (nonempty : Lexeme.cut text ≠ []) (scope : Scope) :
    scope.tokens text = Lexeme.tokens (Lexeme.cut text) scope := by
  unfold tokens
  split
  · contradiction
  · rfl

theorem tokens_eq_error_iff {bound : Nat} {text : String} {fault : Fault} {after : Scope} :
    (images bound .empty).tokens text = (.error fault, after) ↔
      (Lexeme.cut text = [] ∧ fault = .emptyFormula ∧ after.Records bound []) ∨
      ∃ before word span rest, Lexeme.cut text = before ++ ⟨.word word, span⟩ :: rest ∧
        (∀ lexeme ∈ before, lexeme.Resolves bound) ∧ wordValue? bound word = none ∧
        fault = wordFault word span ∧ after.Records bound (Lexeme.slots bound before) := by
  simp only [records_iff]
  by_cases empty : Lexeme.cut text = []
  · rw [tokens_of_nil empty]
    constructor
    · rintro ⟨⟩
      exact .inl ⟨empty, rfl, rfl⟩
    · rintro (⟨-, rfl, rfl⟩ | ⟨before, word, span, rest, same, -⟩)
      · rfl
      · simp [empty] at same
  · rw [tokens_of_ne_nil empty, Lexeme.tokens_eq_error_iff]
    simp only [empty, false_and, false_or]

theorem tokens_eq_ok_iff_resolves {bound : Nat} {text : String} {after : Scope} :
    (∃ read, (images bound .empty).tokens text = (.ok read, after)) ↔
      Lexeme.cut text ≠ [] ∧ (∀ lexeme ∈ Lexeme.cut text, lexeme.Resolves bound) ∧
        after.Records bound (Lexeme.slots bound (Lexeme.cut text)) := by
  rw [records_iff]
  by_cases empty : Lexeme.cut text = []
  · simp [tokens_of_nil empty, empty]
  · rw [tokens_of_ne_nil empty, Lexeme.tokens_eq_ok_iff_resolves]
    simp only [ne_eq, empty, not_false_eq_true, true_and]

/-- A formula is cut in the same way in every scope. In a fresh scope of images it is refused if it
is empty or if one of its words stands for nothing: the fault is that of the first such word, and
the scope has recorded the images before it. Otherwise it is read, and all its images are recorded.
A lookup that fails records nothing. -/
theorem tokens_stop (bound : Nat) (text : String) :
    (∀ scope read after, tokens scope text = (.ok read, after) →
      read.map (fun token => (token.kind.shape?, token.span)) =
        (Lexeme.cut text).map fun lexeme => (lexeme.kind.shape?, lexeme.span)) ∧
    (∀ usage word span, (images bound usage).readWord word span =
      match wordValue? bound word with
      | some expr => (.ok expr, images bound (usage.recordAll expr.images))
      | none => (.error (wordFault word span), images bound usage)) ∧
    (∀ fault after, (images bound .empty).tokens text = (.error fault, after) ↔
      (Lexeme.cut text = [] ∧ fault = .emptyFormula ∧ after.Records bound []) ∨
      ∃ before word span rest, Lexeme.cut text = before ++ ⟨.word word, span⟩ :: rest ∧
        (∀ lexeme ∈ before, lexeme.Resolves bound) ∧ wordValue? bound word = none ∧
        fault = wordFault word span ∧ after.Records bound (Lexeme.slots bound before)) ∧
    (∀ after, (∃ read, (images bound .empty).tokens text = (.ok read, after)) ↔
      Lexeme.cut text ≠ [] ∧ (∀ lexeme ∈ Lexeme.cut text, lexeme.Resolves bound) ∧
        after.Records bound (Lexeme.slots bound (Lexeme.cut text))) ∧
    (∀ scope identifier span fault after,
      resolve scope identifier span = (.error fault, after) → after = scope) := by
  refine ⟨?_, readWord_eq bound, fun _ _ => tokens_eq_error_iff,
    fun _ => tokens_eq_ok_iff_resolves, fun _ _ _ _ _ => resolve_eq_error⟩
  intro scope read after isRead
  by_cases empty : Lexeme.cut text = []
  · rw [tokens_of_nil empty] at isRead
    cases isRead
  · rw [tokens_of_ne_nil empty] at isRead
    exact Lexeme.shapes_of_tokens isRead

/-- The images before a malformed number are recorded, and those behind it are not. A slot out of
bounds is refused later, and the report stays as it is. -/
theorem tokens_stop_literal :
    let text := "I2*max(I0,1x)+I1"
    let after := images 3 ⟨some 2, some 0, some 2, [0, 2]⟩
    (images 3 .empty).tokens text = (.error (.badNumber "1x" ⟨10, 12⟩), after) ∧
      (after.resolve "I3" ⟨0, 2⟩).1 = .error (.badImageIndex "I3" ⟨0, 2⟩) ∧
      (after.resolve "I3" ⟨0, 2⟩).2 = after := by
  intro text after
  obtain ⟨-, -, stops, -, keeps⟩ := tokens_stop 3 text
  have refused : (after.resolve "I3" ⟨0, 2⟩).1 = .error (.badImageIndex "I3" ⟨0, 2⟩) := by
    decide +kernel
  refine ⟨(stops _ _).mpr (.inr ?_), refused, keeps _ _ _ _ _ (Prod.ext refused rfl)⟩
  refine ⟨(Lexeme.cut text).take 5, "1x", ⟨10, 12⟩, (Lexeme.cut text).drop 6, ?_, ?_, ?_, rfl, ?_⟩
  · decide +kernel
  · decide +kernel
  · decide +kernel
  · rw [records_iff]
    decide +kernel

end Scope

end ImageFormula
