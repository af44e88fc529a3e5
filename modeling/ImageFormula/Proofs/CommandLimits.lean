import ImageFormula.Command.Run
import ImageFormula.Proofs.HeightLimit
import ImageFormula.Proofs.SizeFormulas

/-!
# How high the trees of commands may be

Four commands make a tree of a formula. `compile`, `check` and `tree` refuse a tree that is higher
than the settings allow. `eval` has a limit of its own (`Command.heightLimit`), so that the settings
have no part in it. Below its limit a command fails only where the tree has no result, which is for
`tree` never (`Command.Refuses`). The main statement is `Folder.run_exitCode_iff`;
`Folder.eval_exceeds_depth` is a command line that goes beyond the depth of its settings.
-/

namespace ImageFormula

/-- The tree that a text denotes in a scope, of whatever height. -/
def Scope.Denotes (scope : Scope) (text : String) (tree : Expr) : Prop :=
  ∃ tokens after, scope.tokens text = (.ok tokens, after) ∧ Derives .sum tokens tree

namespace Command

/-- The formula that a command makes a tree of, with the scope of its names. -/
def formula? (slots : Nat) : Command → Option (Scope × String)
  | compile formula _ | check formula | tree formula _ => some (.images slots .empty, formula)
  | eval formula sizes => some (.sizes sizes, formula)
  | tokens _ | renameImage _ _ _ | prelude | config _ => none

/-- The height that the trees of a command may have. -/
def heightLimit (limits : Limits) : Command → Nat
  | eval _ _ => Limits.defaultDepth
  | _ => limits.depth

/-- Whether a command has no result for a tree, however low it is. -/
def Refuses (tree : Expr) : Command → Prop
  | compile _ _ | check _ => ∃ fault, tree.shader = .error fault
  | eval _ _ => ∃ fault, tree.fold = .error fault
  | _ => False

end Command

/-! ## Trees within a limit -/

section Denotes

variable {scope : Scope} {text : String} {root : Expr}

theorem Limits.denotes_of_compile {limits : Limits} {usage : Usage}
    (compiled : limits.compile text = .ok ⟨root, usage⟩) :
    (Scope.images limits.slots .empty).Denotes text root := by
  obtain ⟨tokens, reads, derives, -⟩ := compile_eq_ok_iff.mp compiled
  exact ⟨tokens, _, Scope.tokens_eq_ok_iff.mpr ⟨derives.ne_nil, reads, rfl⟩, derives⟩

theorem SizeFormula.denotes_of_rootAt {sizes : Sizes} (found : rootAt text sizes = .ok root) :
    (Scope.sizes sizes).Denotes text root := by
  unfold rootAt at found
  rcases read : (Scope.sizes sizes).tokens text with ⟨fault | tokens, after⟩
  · rw [read] at found
    cases found
  · rw [read] at found
    exact ⟨tokens, after, read, Engine.derives_of_run found⟩

/-- The engine finds the tree that a text denotes, or a fault, by its height alone. -/
theorem Scope.Denotes.run (denotes : scope.Denotes text root) (limit : Nat) (positive : 1 ≤ limit) :
    ∃ tokens after, scope.tokens text = (.ok tokens, after) ∧
      (root.height ≤ limit ∧ (Engine.standard limit).run tokens = .ok root ∨
        limit < root.height ∧ ∃ fault, (Engine.standard limit).run tokens = .error fault) := by
  obtain ⟨tokens, after, read, derives⟩ := denotes
  have leaf := Scope.tokens_leaf read
  have measured : Measured tokens := fun token member => (leaf token member).1
  refine ⟨tokens, after, read, ?_⟩
  by_cases low : root.height ≤ limit
  · exact .inl ⟨low, Engine.run_of_derives measured derives low⟩
  · refine .inr ⟨Nat.lt_of_not_le low, ?_⟩
    cases ran : (Engine.standard limit).run tokens with
    | error fault => exact ⟨fault, rfl⟩
    | ok found =>
        obtain ⟨derives', low'⟩ := (Engine.run_eq_ok_iff measured).mp ran
        obtain rfl := derives.unique derives'
        -- a formula of one token is a leaf, which every limit allows
        have height := derives.height_le_length fun token member => (leaf token member).2
        omega

theorem Limits.compile_of_denotes {limits : Limits} (positive : 1 ≤ limits.depth)
    (denotes : (Scope.images limits.slots .empty).Denotes text root) :
    (root.height ≤ limits.depth ∧ ∃ usage, limits.compile text = .ok ⟨root, usage⟩) ∨
      limits.depth < root.height ∧ ∃ fault, limits.compile text = .error fault := by
  obtain ⟨tokens, after, read, ran⟩ := denotes.run limits.depth positive
  have read : limits.scope.tokens text = (.ok tokens, after) := read
  unfold Limits.compile Limits.engine
  rw [read]
  rcases ran with ⟨low, ran⟩ | ⟨high, fault, ran⟩
  · exact .inl ⟨low, after.usage, by simp only [ran]⟩
  · exact .inr ⟨high, fault, by simp only [ran]⟩

theorem SizeFormula.valueOf_of_denotes {sizes : Sizes}
    (denotes : (Scope.sizes sizes).Denotes text root) :
    (root.height ≤ Limits.defaultDepth ∧ valueOf text sizes = root.fold) ∨
      Limits.defaultDepth < root.height ∧ ∃ fault, valueOf text sizes = .error fault := by
  obtain ⟨tokens, after, read, ran⟩ := denotes.run Limits.defaultDepth (by decide)
  unfold valueOf
  rw [read]
  rcases ran with ⟨low, ran⟩ | ⟨high, fault, ran⟩
  · exact .inl ⟨low, by simp only [ran]⟩
  · exact .inr ⟨high, fault, by simp only [ran]⟩

/-- Reading a formula at no sizes first does not change what it is worth at others. -/
theorem SizeFormula.parse_bind_evaluate (text : String) (sizes : Sizes) :
    ((parse text).bind fun formula => formula.evaluate sizes) = valueOf text sizes := by
  have same := verdict_valueOf text sizes .zero
  unfold parse
  cases atZero : valueOf text .zero with
  | error fault =>
      rw [atZero, verdict_error, verdict_eq_error_iff] at same
      rw [same]
      rfl
  | ok value => rfl

end Denotes

/-! ## How commands end -/

theorem Outcome.exitCode_ofResult {α : Type} (formula : String) (print : α → String)
    (result : Except Fault α) :
    (Outcome.ofResult formula print result).exitCode = 1 ↔ ∃ fault, result = .error fault := by
  cases result <;> simp [ofResult, exitCode]

namespace Limits

variable {limits : Limits} {formula : String}

theorem exitCode_of_fault {fault : Fault} (failed : limits.compile formula = .error fault)
    (asJson : Bool) :
    (limits.runCompile formula asJson).exitCode = 1 ∧ (limits.runCheck formula).exitCode = 1 ∧
      (limits.runTree formula asJson).exitCode = 1 := by
  simp [runCompile, runCheck, runTree, failed, Outcome.ofResult, Except.bind, Outcome.exitCode]

/-- A formula that compiles has a shader text, or fails for want of one; its tree is shown in any
case. -/
theorem exitCode_of_root {root : Expr} {usage : Usage}
    (compiled : limits.compile formula = .ok ⟨root, usage⟩) (asJson : Bool) :
    ((limits.runCompile formula asJson).exitCode = 1 ↔ ∃ fault, root.shader = .error fault) ∧
      ((limits.runCheck formula).exitCode = 1 ↔ ∃ fault, root.shader = .error fault) ∧
      (limits.runTree formula asJson).exitCode ≠ 1 := by
  unfold runCompile runCheck runTree
  rw [compiled]
  cases emitted : root.shader <;>
    simp [Equation.validate, Equation.shader, emitted, Outcome.ofResult, Except.bind, Except.map,
      Outcome.exitCode]

/-- What fails where its formula does not compile fails above the depth, and below it where its tree
has no result. -/
theorem exitCode_iff_of_denotes {root : Expr} {outcome : Outcome} {refuses : Prop}
    (positive : 1 ≤ limits.depth) (denotes : (Scope.images limits.slots .empty).Denotes formula root)
    (onFault : ∀ fault, limits.compile formula = .error fault → outcome.exitCode = 1)
    (onRoot : ∀ usage, limits.compile formula = .ok ⟨root, usage⟩ →
      (outcome.exitCode = 1 ↔ refuses)) :
    outcome.exitCode = 1 ↔ limits.depth < root.height ∨ refuses := by
  rcases compile_of_denotes positive denotes with ⟨low, usage, compiled⟩ | ⟨high, fault, failed⟩
  · rw [onRoot usage compiled]
    exact (or_iff_right (Nat.not_lt_of_le low)).symm
  · exact iff_of_true (onFault fault failed) (.inl high)

end Limits

/-- A command fails if its tree is above the limit of the command or has no result. -/
theorem Invocation.exitCode_outcome {asked : Invocation} {config : Config} {scope : Scope}
    {text : String} {root : Expr} (positive : 1 ≤ config.limits.depth)
    (formula : asked.command.formula? config.limits.slots = some (scope, text))
    (denotes : scope.Denotes text root) :
    (asked.outcome config).exitCode = 1 ↔
      asked.command.heightLimit config.limits < root.height ∨ asked.command.Refuses root := by
  obtain ⟨configName, slots, command⟩ := asked
  cases command with
  | eval text' sizes =>
      obtain ⟨rfl, rfl⟩ := Prod.mk.inj (Option.some.inj formula)
      unfold outcome
      rw [Outcome.exitCode_ofResult, SizeFormula.parse_bind_evaluate]
      rcases SizeFormula.valueOf_of_denotes denotes with ⟨low, folds⟩ | ⟨high, fault, failed⟩
      · rw [folds]
        exact (or_iff_right (Nat.not_lt_of_le low)).symm
      · exact iff_of_true ⟨fault, failed⟩ (.inl high)
  | compile text' asJson =>
      obtain ⟨rfl, rfl⟩ := Prod.mk.inj (Option.some.inj formula)
      refine Limits.exitCode_iff_of_denotes positive denotes ?_ ?_
      · exact fun _ failed => (Limits.exitCode_of_fault failed asJson).1
      · exact fun _ compiled => (Limits.exitCode_of_root compiled asJson).1
  | check text' =>
      obtain ⟨rfl, rfl⟩ := Prod.mk.inj (Option.some.inj formula)
      refine Limits.exitCode_iff_of_denotes positive denotes ?_ ?_
      · exact fun _ failed => (Limits.exitCode_of_fault failed false).2.1
      · exact fun _ compiled => (Limits.exitCode_of_root compiled false).2.1
  | tree text' asJson =>
      obtain ⟨rfl, rfl⟩ := Prod.mk.inj (Option.some.inj formula)
      refine Limits.exitCode_iff_of_denotes positive denotes ?_ ?_
      · exact fun _ failed => (Limits.exitCode_of_fault failed asJson).2.2
      · exact fun _ compiled => iff_of_false (Limits.exitCode_of_root compiled asJson).2.2 id
  | tokens | renameImage | prelude | config => cases formula

/-- A command line that makes a tree of a formula ends with an error exactly if the tree is above
the limit of its command, or has no result. The limit is the depth of the settings for all commands
but `eval`, for which it is `Limits.defaultDepth` whatever the settings say. -/
theorem Folder.run_exitCode_iff {folder : Folder} {arguments : List String} {asked : Invocation}
    {config : Config} {scope : Scope} {text : String} {root : Expr}
    (request : Request.ofArguments arguments = .invocation asked)
    (loaded : asked.load (folder.read asked.path) = .ok config)
    (positive : 1 ≤ config.limits.depth)
    (formula : asked.command.formula? config.limits.slots = some (scope, text))
    (denotes : scope.Denotes text root) :
    (folder.run arguments).1.exitCode = 1 ↔
      asked.command.heightLimit config.limits < root.height ∨ asked.command.Refuses root := by
  rw [Folder.run_of_load request loaded]
  exact Invocation.exitCode_outcome positive formula denotes

/-- A depth of two in the settings refuses a tree of height three. -/
theorem Folder.run_exitCode_iff_tree :
    let folder : Folder := ⟨[("pixeq.toml", "[compiler]\nmax_depth = 2\n")]⟩
    let asked : Invocation := ⟨none, none, .tree "abs(abs(I0))" false⟩
    let config : Config := ⟨⟨16, 2⟩, "warn"⟩
    let root : Expr := .unary "abs" (.unary "abs" (.image 0) ⟨4, 8⟩) ⟨0, 4⟩
    Request.ofArguments ["tree", "abs(abs(I0))"] = .invocation asked ∧
      asked.load (folder.read asked.path) = .ok config ∧
      (Scope.images 16 .empty).Denotes "abs(abs(I0))" root ∧
      (folder.run ["tree", "abs(abs(I0))"]).1.exitCode = 1 := by
  intro folder asked config root
  have request : Request.ofArguments ["tree", "abs(abs(I0))"] = .invocation asked := by
    decide +kernel
  have loaded : asked.load (folder.read asked.path) = .ok config := by decide +kernel
  have compiled : Limits.default.compile "abs(abs(I0))" =
      .ok ⟨root, ⟨some 0, some 0, some 0, [0]⟩⟩ := by decide +kernel
  have denotes := Limits.denotes_of_compile compiled
  refine ⟨request, loaded, denotes, ?_⟩
  exact (run_exitCode_iff request loaded (by decide) rfl denotes).mpr (.inl (by decide))

/-- Under the same settings `eval` takes a tree of height four and ends well. -/
theorem Folder.eval_exceeds_depth :
    let folder : Folder := ⟨[("pixeq.toml", "[compiler]\nmax_depth = 2\n")]⟩
    let asked : Invocation := ⟨none, none, .eval "abs(abs(abs(1)))" .zero⟩
    let config : Config := ⟨⟨16, 2⟩, "warn"⟩
    let root : Expr :=
      .unary "abs" (.unary "abs" (.unary "abs" (.number .one) ⟨8, 12⟩) ⟨4, 8⟩) ⟨0, 4⟩
    Request.ofArguments ["eval", "abs(abs(abs(1)))"] = .invocation asked ∧
      asked.load (folder.read asked.path) = .ok config ∧
      (Scope.sizes .zero).Denotes "abs(abs(abs(1)))" root ∧
      config.limits.depth < root.height ∧
      (folder.run ["eval", "abs(abs(abs(1)))"]).1 = .done "1\n" ∧
      (folder.run ["tree", "abs(abs(abs(1)))"]).1.exitCode = 1 := by
  intro folder asked config root
  have found : SizeFormula.rootAt "abs(abs(abs(1)))" .zero = .ok root := by decide +kernel
  refine ⟨by decide +kernel, by decide +kernel, SizeFormula.denotes_of_rootAt found, by decide, ?_⟩
  exact ⟨by decide +kernel, by decide +kernel⟩

end ImageFormula
