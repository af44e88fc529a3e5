import ImageFormula.Proofs.LetterCase
import ImageFormula.Proofs.Stopping

/-!
# What identifiers stand for

An identifier of an image formula is a constant, or `I` with the number of a slot. The number is
read by its value: it may have any length and zeros in front, and a number that is too great is
refused, not taken for a lower slot.

* **digits** are read as their value by places (`Decimal.ofDigitChars_eq_placeValue`);
* **constants** are the names of one list, in any case (`constant?_eq_some_iff`), and `I` with
  digits is none of them;
* **a lookup** gives what the identifier stands for and records a slot, or gives a fault and records
  nothing (`Scope.resolve_eq_ok_iff`, `Scope.resolve_eq_error_iff`).

Together they are `Scope.resolve_byValue`.
-/

namespace ImageFormula

/-! ## Digits -/

namespace Decimal

/-- The value of digits: each counts by its place, the last one as a unit. -/
def placeValue : List Char → Nat
  | [] => 0
  | digit :: rest => (digit.toNat - '0'.toNat) * tenPow rest.length + placeValue rest

theorem ofDigitChars_add (digits : List Char) (init : Nat) :
    Nat.ofDigitChars 10 digits init = init * tenPow digits.length + placeValue digits := by
  induction digits generalizing init with
  | nil => simp [placeValue, tenPow]
  | cons digit rest ih =>
      have next : tenPow (rest.length + 1) = 10 * tenPow rest.length := Nat.pow_succ'
      rw [Nat.ofDigitChars_cons, ih, List.length_cons, next, placeValue, Nat.add_mul, Nat.add_assoc,
        Nat.mul_comm 10 init, Nat.mul_assoc]

/-- Reading the digits from left to right gives their value, however many they are. -/
theorem ofDigitChars_eq_placeValue (digits : List Char) :
    Nat.ofDigitChars 10 digits 0 = placeValue digits := by
  rw [ofDigitChars_add, Nat.zero_mul, Nat.zero_add]

end Decimal

theorem Scope.slot?_eq_some_iff {bound slot : Nat} {index : List Char} :
    slot? bound index = some slot ↔
      IsDigits index ∧ Decimal.placeValue index = slot ∧ slot < bound := by
  unfold slot?
  rw [← and_assoc, ← Decimal.ofDigitChars_eq_placeValue, ← Decimal.digits?_eq_some_iff]
  cases Decimal.digits? index with
  | none => simp
  | some value =>
      by_cases below : value < bound
      · simp only [if_pos below, Option.some.injEq]
        constructor
        · rintro rfl
          exact ⟨rfl, below⟩
        · exact And.left
      · simp only [if_neg below, Option.some.injEq]
        constructor
        · intro none
          contradiction
        · rintro ⟨rfl, above⟩
          exact absurd above below

/-! ## Names -/

/-- The named constants, with their values. -/
def constants : List (String × Binary32) :=
  [("pi", .pi), ("e", .euler), ("inf", .infinity), ("infinity", .infinity),
    ("float_max", .greatest), ("fmax", .greatest), ("eps", .smallest), ("epsilon", .smallest),
    ("nan", .nan)]

/-- An identifier is the name of a constant, in any case. -/
def IsConstantName (identifier : String) (value : Binary32) : Prop :=
  ∃ name, (name, value) ∈ constants ∧ Text.sameLetters identifier name = true

/-- An identifier is a name of an image: `I` with one or more digits of the value of its slot. -/
def IsImageName (identifier : String) (slot : Nat) : Prop :=
  ∃ index, identifier.toList = 'I' :: index ∧ IsDigits index ∧ Decimal.placeValue index = slot

theorem constant?_of_mem : ∀ entry ∈ constants, constant? entry.1 = some entry.2 := by
  decide +kernel

theorem lower_mem_constants {identifier : String} {value : Binary32}
    (found : constant? identifier = some value) : (Text.lower identifier, value) ∈ constants := by
  unfold constant? at found
  split at found
  all_goals first | obtain rfl := Option.some.inj found | cases found
  all_goals
    rename_i same
    rw [same]
    decide

theorem constant?_eq_some_iff {identifier : String} {value : Binary32} :
    constant? identifier = some value ↔ IsConstantName identifier value := by
  constructor
  · intro found
    refine ⟨Text.lower identifier, lower_mem_constants found, ?_⟩
    rw [Text.sameLetters, Text.lower_lower, beq_self_eq_true]
  · rintro ⟨name, member, letters⟩
    rw [constant?_of_lower_eq (beq_iff_eq.mp letters)]
    exact constant?_of_mem (name, value) member

namespace IsImageName

variable {identifier : String} {slot slot' : Nat}

theorem unique (isName : IsImageName identifier slot) (isName' : IsImageName identifier slot') :
    slot = slot' := by
  obtain ⟨index, chars, -, rfl⟩ := isName
  obtain ⟨index', chars', -, rfl⟩ := isName'
  obtain ⟨-, rfl⟩ := List.cons.inj (chars.symm.trans chars')
  rfl

theorem head? (isName : IsImageName identifier slot) : identifier.toList.head? = some 'I' := by
  obtain ⟨index, chars, -⟩ := isName
  rw [chars, List.head?_cons]

/-- No constant is spelled like an image. -/
theorem not_isConstantName (isName : IsImageName identifier slot) (value : Binary32) :
    ¬ IsConstantName identifier value := by
  obtain ⟨index, chars, isDigits, -⟩ := isName
  rw [← constant?_eq_some_iff, constant?_eq_none chars isDigits.digits]
  intro same
  contradiction

end IsImageName

/-! ## Lookups -/

namespace Scope

variable {bound : Nat} {identifier : String}

theorem imageValue?_eq_image_iff {slot : Nat} :
    imageValue? bound identifier = some (.image slot) ↔
      IsImageName identifier slot ∧ slot < bound := by
  unfold imageValue?
  constructor
  · intro value
    split at value
    · cases value
    · split at value
      · rename_i index chars
        obtain ⟨found, isSlot, same⟩ := Option.map_eq_some_iff.mp value
        obtain rfl := Expr.image.inj same
        obtain ⟨isDigits, isValue, below⟩ := slot?_eq_some_iff.mp isSlot
        exact ⟨⟨index, chars, isDigits, isValue⟩, below⟩
      · contradiction
  · rintro ⟨⟨index, chars, isDigits, isValue⟩, below⟩
    have isSlot : slot? bound index = some slot := slot?_eq_some_iff.mpr ⟨isDigits, isValue, below⟩
    simp only [constant?_eq_none chars isDigits.digits, chars, isSlot, Option.map_some]

instance (identifier : String) (slot : Nat) : Decidable (IsImageName identifier slot) :=
  decidable_of_iff (imageValue? (slot + 1) identifier = some (.image slot))
    (imageValue?_eq_image_iff.trans (and_iff_left slot.lt_succ_self))

theorem imageValue?_eq_number_iff {value : Binary32} :
    imageValue? bound identifier = some (.number value) ↔ IsConstantName identifier value := by
  rw [← constant?_eq_some_iff]
  unfold imageValue?
  cases constant? identifier with
  | some found => simp
  | none =>
      simp only [reduceCtorEq, iff_false]
      split <;> simp

theorem image_or_number_of_imageValue? {expr : Expr}
    (value : imageValue? bound identifier = some expr) :
    (∃ slot, expr = .image slot) ∨ ∃ number, expr = .number number := by
  unfold imageValue? at value
  split at value
  · exact .inr ⟨_, (Option.some.inj value).symm⟩
  · split at value
    · obtain ⟨slot, -, isImage⟩ := Option.map_eq_some_iff.mp value
      exact .inl ⟨slot, isImage.symm⟩
    · contradiction

theorem imageValue?_eq_none_iff : imageValue? bound identifier = none ↔
    (¬ ∃ slot, IsImageName identifier slot ∧ slot < bound) ∧
      ¬ ∃ value, IsConstantName identifier value := by
  constructor
  · intro unknown
    constructor
    · rintro ⟨slot, isImage⟩
      rw [imageValue?_eq_image_iff.mpr isImage] at unknown
      contradiction
    · rintro ⟨value, isConstant⟩
      rw [imageValue?_eq_number_iff.mpr isConstant] at unknown
      contradiction
  · rintro ⟨noImage, noConstant⟩
    cases known : imageValue? bound identifier with
    | none => rfl
    | some expr =>
        rcases image_or_number_of_imageValue? known with ⟨slot, rfl⟩ | ⟨value, rfl⟩
        · exact absurd ⟨slot, imageValue?_eq_image_iff.mp known⟩ noImage
        · exact absurd ⟨value, imageValue?_eq_number_iff.mp known⟩ noConstant

variable {usage : Usage} {span : Span} {after : Scope}

theorem resolve_eq_ok_iff {expr : Expr} :
    (images bound usage).resolve identifier span = (.ok expr, after) ↔
      imageValue? bound identifier = some expr ∧
        after = images bound (usage.recordAll expr.images) := by
  have answers := resolve_images bound usage identifier span
  cases value : imageValue? bound identifier with
  | none => simp [resolve_of_none value]
  | some found =>
      rw [value] at answers
      rw [answers.of_some]
      constructor
      · rintro ⟨⟩
        exact ⟨rfl, rfl⟩
      · rintro ⟨⟨⟩, rfl⟩
        rfl

theorem resolve_eq_error_iff {fault : Fault} :
    (images bound usage).resolve identifier span = (.error fault, after) ↔
      imageValue? bound identifier = none ∧ fault = wordFault identifier span ∧
        after = images bound usage := by
  have answers := resolve_images bound usage identifier span
  cases value : imageValue? bound identifier with
  | none =>
      rw [resolve_of_none value]
      constructor
      · rintro ⟨⟩
        exact ⟨rfl, rfl, rfl⟩
      · rintro ⟨-, rfl, rfl⟩
        rfl
  | some found =>
      rw [value] at answers
      simp [answers.of_some]

theorem wordFault_eq (word : String) (span : Span) : wordFault word span =
    if word.toList.head? = some 'I' then .badImageIndex word span else .badNumber word span := by
  unfold wordFault
  cases word.toList with
  | nil => rfl
  | cons first rest =>
      by_cases isImage : first = 'I'
      · subst isImage
        rfl
      · simp [isImage]

/-- An identifier stands for an image if it is `I` with digits of a value below the bound, and for a
number if it is the name of a constant. Any other one is refused, as an image if it starts with `I`
and as a number if it does not. The slot of an image is recorded, and nothing else is. A value that
is not below the bound is refused however great it is: it does not come round to a lower slot. -/
theorem resolve_byValue (bound : Nat) (usage : Usage) (identifier : String) (span : Span) :
    (∀ slot after, (images bound usage).resolve identifier span = (.ok (.image slot), after) ↔
      (IsImageName identifier slot ∧ slot < bound) ∧ after = images bound (usage.record slot)) ∧
    (∀ value after, (images bound usage).resolve identifier span = (.ok (.number value), after) ↔
      IsConstantName identifier value ∧ after = images bound usage) ∧
    (∀ fault after, (images bound usage).resolve identifier span = (.error fault, after) ↔
      ((¬ ∃ slot, IsImageName identifier slot ∧ slot < bound) ∧
        ¬ ∃ value, IsConstantName identifier value) ∧
      fault = (if identifier.toList.head? = some 'I' then .badImageIndex identifier span
        else .badNumber identifier span) ∧
      after = images bound usage) ∧
    ∀ slot, IsImageName identifier slot → bound ≤ slot →
      (images bound usage).resolve identifier span =
        (.error (.badImageIndex identifier span), images bound usage) := by
  refine ⟨?_, ?_, ?_, ?_⟩
  · intro slot after
    rw [resolve_eq_ok_iff, imageValue?_eq_image_iff]
    rfl
  · intro value after
    rw [resolve_eq_ok_iff, imageValue?_eq_number_iff]
    rfl
  · intro fault after
    rw [resolve_eq_error_iff, imageValue?_eq_none_iff, wordFault_eq]
  · intro slot isName above
    rw [resolve_eq_error_iff, imageValue?_eq_none_iff, wordFault_eq, if_pos isName.head?]
    refine ⟨⟨?_, ?_⟩, rfl, rfl⟩
    · -- the digits have one value, and it is not below the bound
      rintro ⟨slot', isName', below⟩
      rw [← isName.unique isName'] at below
      omega
    · rintro ⟨value, isConstant⟩
      exact isName.not_isConstantName value isConstant

/-- The number `2 ^ 32 + 3` is not taken for slot 3, whose own name may have as many digits. -/
theorem resolve_byValue_wide :
    let usage : Usage := ⟨some 5, some 5, some 5, [5]⟩
    IsImageName "I4294967299" 4294967299 ∧ IsImageName "I0000000003" 3 ∧
      (images 8 usage).resolve "I4294967299" ⟨0, 11⟩ =
        (.error (.badImageIndex "I4294967299" ⟨0, 11⟩), images 8 usage) ∧
      (images 8 usage).resolve "I0000000003" ⟨0, 11⟩ =
        (.ok (.image 3), images 8 ⟨some 5, some 3, some 5, [3, 5]⟩) := by
  intro usage
  have isWide : IsImageName "I4294967299" 4294967299 := by decide +kernel
  have isThree : IsImageName "I0000000003" 3 := by decide +kernel
  obtain ⟨-, -, -, refused⟩ := resolve_byValue 8 usage "I4294967299" ⟨0, 11⟩
  obtain ⟨given, -, -, -⟩ := resolve_byValue 8 usage "I0000000003" ⟨0, 11⟩
  refine ⟨isWide, isThree, refused _ isWide (by decide), ?_⟩
  exact (given 3 _).mpr ⟨⟨isThree, by decide⟩, by decide⟩

-- constants come before images, and only the digits of ASCII count
example :
    ((images 8 .empty).resolve "Inf" ⟨0, 3⟩).1 = .ok (.number .infinity) ∧
      ((images 8 .empty).resolve "I\u0663" ⟨0, 2⟩).1 =
        .error (.badImageIndex "I\u0663" ⟨0, 2⟩) := by
  decide +kernel

end Scope

end ImageFormula
