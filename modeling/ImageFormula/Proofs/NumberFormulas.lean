import ImageFormula.Proofs.SizeFormulas

/-!
# Formulas of numbers

A formula without sizes and images is a size formula and an image formula. The two are read in
different scopes: one looks for sizes before constants, the other for images after them. On a word
that both know, or that neither knows, their answers are the same down to the fault
(`Scope.resolve_shared`), and no scope changes. So both read the same tokens, reduce them to the
same tree within the same depth, and fold it: this is `SizeFormula.evaluate_eq_fold`.
-/

namespace ImageFormula

/-- A word that is no size, and an image name only if it is a constant. -/
def IsShared (word : String) : Prop :=
  Text.lower word ∉ ["width", "height", "depth"] ∧
    (word.toList.head? = some 'I' → (constant? word).isSome = true)

instance (word : String) : Decidable (IsShared word) := inferInstanceAs (Decidable (_ ∧ _))

/-- A lexeme that is such a word, or no word. -/
def LexemeKind.IsShared : LexemeKind → Prop
  | word text => ImageFormula.IsShared text
  | operator _ | bracketOpen | bracketClose | separator | functionStart _ => True

instance (kind : LexemeKind) : Decidable kind.IsShared :=
  match kind with
  | .word text => inferInstanceAs (Decidable (IsShared text))
  | .operator _ | .bracketOpen | .bracketClose | .separator | .functionStart _ =>
    inferInstanceAs (Decidable True)

/-- All words of the text are such words. -/
def IsNumberFormula (text : String) : Prop := ∀ lexeme ∈ Lexeme.cut text, lexeme.kind.IsShared

instance (text : String) : Decidable (IsNumberFormula text) :=
  inferInstanceAs (Decidable (∀ lexeme ∈ Lexeme.cut text, lexeme.kind.IsShared))

theorem IsShared.get? {word : String} (shared : IsShared word) (sizes : Sizes) :
    sizes.get? (Text.lower word) = none := by
  obtain ⟨noSize, -⟩ := shared
  unfold Sizes.get?
  split
  · simp_all
  · simp_all
  · simp_all
  · rfl

/-- Two scopes read alike: the result is the same, and each is left as it was. -/
def ReadAlike {α : Type} (read : Scope → Except Fault α × Scope) : Prop :=
  ∃ result, ∀ bound usage sizes,
    read (.images bound usage) = (result, .images bound usage) ∧
      read (.sizes sizes) = (result, .sizes sizes)

/-! ## Reading -/

namespace Scope

variable {word : String}

theorem resolve_shared (shared : IsShared word) (span : Span) :
    ReadAlike fun scope => scope.resolve word span := by
  simp only [ReadAlike, resolve, shared.get?]
  cases constant : constant? word with
  | some value => exact ⟨.ok (.number value), fun _ _ _ => ⟨rfl, rfl⟩⟩
  | none =>
      -- the faults differ on image names only
      have noImage (index : List Char) (isImage : word.toList = 'I' :: index) : False := by
        have known := shared.2 (by rw [isImage, List.head?_cons])
        simp [constant] at known
      exact ⟨.error (.badNumber word span), fun _ _ _ => by simp⟩

theorem readWord_shared (shared : IsShared word) (span : Span) :
    ReadAlike fun scope => scope.readWord word span := by
  unfold readWord
  split
  · split
    · exact resolve_shared shared span
    · cases Decimal.parse? word.toList with
      | some decimal => exact ⟨.ok (.number decimal.narrowed), fun _ _ _ => ⟨rfl, rfl⟩⟩
      | none => exact ⟨.error (.badNumber word span), fun _ _ _ => ⟨rfl, rfl⟩⟩
  · exact ⟨.error (.badNumber word span), fun _ _ _ => ⟨rfl, rfl⟩⟩

end Scope

namespace Lexeme

theorem token_shared {lexeme : Lexeme} (shared : lexeme.kind.IsShared) :
    ReadAlike lexeme.token := by
  obtain ⟨kind, span⟩ := lexeme
  cases kind with
  | word text =>
      obtain ⟨result, reads⟩ := Scope.readWord_shared shared span
      refine ⟨result.map fun expr => Token.ofKind (.value expr) span, fun bound usage sizes => ?_⟩
      simp only at reads
      simp only [token, reads bound usage sizes]
      cases result <;> exact ⟨rfl, rfl⟩
  | operator | bracketOpen | bracketClose | separator | functionStart =>
      exact ⟨.ok (Token.ofKind _ span), fun _ _ _ => ⟨rfl, rfl⟩⟩

theorem tokens_shared {lexemes : List Lexeme}
    (shared : ∀ lexeme ∈ lexemes, lexeme.kind.IsShared) : ReadAlike (tokens lexemes) := by
  induction lexemes with
  | nil => exact ⟨.ok [], fun _ _ _ => ⟨rfl, rfl⟩⟩
  | cons lexeme more ih =>
      obtain ⟨sharedFirst, sharedMore⟩ := List.forall_mem_cons.mp shared
      obtain ⟨result, reads⟩ := token_shared sharedFirst
      obtain ⟨results, readsMore⟩ := ih sharedMore
      cases result with
      | error fault =>
          refine ⟨.error fault, fun bound usage sizes => ?_⟩
          simp only [tokens, reads bound usage sizes, and_self]
      | ok first =>
          refine ⟨results.map (first :: ·), fun bound usage sizes => ?_⟩
          simp only [tokens, reads bound usage sizes, readsMore bound usage sizes]
          cases results <;> exact ⟨rfl, rfl⟩

end Lexeme

theorem Scope.tokens_shared {text : String} (shared : IsNumberFormula text) :
    ReadAlike fun scope => scope.tokens text := by
  unfold IsNumberFormula at shared
  simp only [tokens]
  cases cut : Lexeme.cut text with
  | nil => exact ⟨.error .emptyFormula, fun _ _ _ => ⟨rfl, rfl⟩⟩
  | cons lexeme more => exact Lexeme.tokens_shared (cut ▸ shared)

/-! ## Evaluation -/

namespace SizeFormula

variable {text : String}

/-- A text is reduced to the same tree in both scopes. -/
theorem rootAt_eq_root (shared : IsNumberFormula text) (sizes : Sizes) :
    rootAt text sizes = (Limits.default.compile text).map Equation.root := by
  obtain ⟨result, reads⟩ := Scope.tokens_shared shared
  obtain ⟨image, size⟩ := reads Limits.default.slots .empty sizes
  simp only [rootAt, Limits.compile, Limits.scope, image, size]
  cases result with
  | error fault => rfl
  | ok tokens =>
      have sameEngine : Limits.default.engine = .standard Limits.defaultDepth := rfl
      simp only [sameEngine]
      show (Engine.standard Limits.defaultDepth).run tokens = _
      cases (Engine.standard Limits.defaultDepth).run tokens <;> rfl

theorem valueOf_eq_fold (shared : IsNumberFormula text) (sizes : Sizes) :
    valueOf text sizes = (Limits.default.compile text).bind Equation.fold := by
  rw [valueOf_eq, rootAt_eq_root shared]
  cases Limits.default.compile text <;> rfl

/-- A text without sizes and images has one value, whether it is evaluated as a size formula, at any
sizes, or as an image formula; or it has the same fault. -/
theorem evaluate_eq_fold (shared : IsNumberFormula text) (sizes : Sizes) :
    ((parse text).bind fun formula => formula.evaluate sizes) =
      (Limits.default.compile text).bind Equation.fold := by
  rw [parse, valueOf_eq_fold shared]
  cases folded : (Limits.default.compile text).bind Equation.fold with
  | error fault => rfl
  | ok value =>
      show valueOf text sizes = .ok value
      rw [valueOf_eq_fold shared, folded]

/-- `Inf` is no image, and `max(2,Pi)^2-1/Inf` is the square of a constant at all sizes. -/
theorem evaluate_eq_fold_square :
    IsNumberFormula "max(2,Pi)^2-1/Inf" ∧ ∀ sizes,
      ((parse "max(2,Pi)^2-1/Inf").bind fun formula => formula.evaluate sizes) =
        .ok (.power .pi (Binary32.one + .one)) :=
  have shared : IsNumberFormula "max(2,Pi)^2-1/Inf" := by decide +kernel
  ⟨shared, fun sizes => (evaluate_eq_fold shared sizes).trans (by decide +kernel)⟩

end SizeFormula

end ImageFormula
