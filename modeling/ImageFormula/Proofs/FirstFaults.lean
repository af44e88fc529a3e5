import ImageFormula.Proofs.Readability
import ImageFormula.Proofs.SizeFormulas
import Mathlib.Data.List.Nodup

/-!
# Which fault a tree is refused for

Both walks over a tree, the one to its shader text and the one to its value, look at a node before
they look at its parts, and at the parts from left to right. So each reports the fault of the first
node in this order that has one of its own (`Expr.fault?_walk`), and a tree without such a node is
accepted.

* **shader text** (`Expr.shader_firstFault`): the nodes at fault are the calls that are not in the
  table of functions;
* **value** (`Expr.fold_firstFault`): they are these, the images, and the calls of functions without
  a scalar.

That no other fault comes up rests on the table: each function takes as many arguments as its shape
and its scalar do (`Function.isSome_render?`, `Function.isSome_value?`).
-/

namespace ImageFormula

/-! ## The table of functions -/

namespace Shape

/-- Whether a shape can be written with so many arguments. -/
def takes : Shape → Nat → Bool
  | call _, _ | scalarOfColours _, _ | colourOfColours _, _ => true
  | swizzle _, arity | testOfColour _, arity => arity == 1
  | clampedPower, arity => arity == 2
  | composeRgb, arity | lerpScalar, arity => arity == 3
  | fixed _, arity => arity == 0

theorem isSome_render? (shape : Shape) (texts : List String) :
    (shape.render? texts).isSome = shape.takes texts.length := by
  rcases texts with _ | ⟨_, _ | ⟨_, _ | ⟨_, _ | ⟨_, _⟩⟩⟩⟩ <;> cases shape <;>
    simp [render?, takes]

end Shape

namespace Function

variable {name : String} {arity : Nat} {function : Function}

/-- A function is called by its name, in any case, and with as many arguments as it has. -/
def isCalled (function : Function) (name : String) (arity : Nat) : Bool :=
  function.arity == arity && Text.sameLetters function.name name

/-- The table has a function for such a call. -/
def isKnown (name : String) (arity : Nat) : Bool := table.any fun f => f.isCalled name arity

/-- The table has a function for such a call, and it has a scalar. -/
def isNumeric (name : String) (arity : Nat) : Bool :=
  table.any fun f => f.isCalled name arity && f.scalar.isSome

theorem isKnown_of_isNumeric (numeric : isNumeric name arity = true) :
    isKnown name arity = true := by
  simp only [isNumeric, isKnown, List.any_eq_true, Bool.and_eq_true] at numeric ⊢
  obtain ⟨function, member, called, -⟩ := numeric
  exact ⟨function, member, called⟩

theorem isSome_find? (name : String) (arity : Nat) :
    (find? name arity).isSome = isKnown name arity := by
  rw [Bool.eq_iff_iff, find?, List.find?_isSome, isKnown, List.any_eq_true]
  rfl

/-- No two functions differ in the case of letters only. -/
theorem nodup_table : (table.map fun f => (f.arity, Text.lower f.name)).Nodup := by
  decide +kernel

/-- The function that is found decides for all functions of this call. -/
theorem isNumeric_of_find? (found : find? name arity = some function) :
    isNumeric name arity = function.scalar.isSome := by
  obtain ⟨member, isArity, isName⟩ := of_find? found
  rw [Bool.eq_iff_iff, isNumeric, List.any_eq_true]
  constructor
  · rintro ⟨other, isOther, numeric⟩
    simp only [isCalled, Bool.and_eq_true, beq_iff_eq, Text.sameLetters] at numeric
    obtain ⟨⟨isArity', isName'⟩, numeric⟩ := numeric
    -- a later function of the same call would be a second entry for it
    have same : other = function := List.inj_on_of_nodup_map nodup_table isOther member <| by
      rw [isArity, isName, isArity', isName']
    rwa [← same]
  · intro numeric
    refine ⟨function, member, ?_⟩
    simp [isCalled, isArity, Text.sameLetters, isName, numeric]

theorem takes_of_mem : ∀ function ∈ table, function.shape.takes function.arity = true := by
  decide +kernel

theorem arity_of_mem : ∀ function ∈ table,
    function.scalar.all (fun scalar => scalar.arity == function.arity) = true := by
  decide +kernel

/-- A function that is found can be written with the arguments it was looked up for. -/
theorem isSome_render? {texts : List String} (found : find? name texts.length = some function) :
    (function.shape.render? texts).isSome = true := by
  obtain ⟨member, isArity, -⟩ := of_find? found
  rw [Shape.isSome_render?, ← isArity]
  exact takes_of_mem function member

/-- The scalar of a function that is found has a value at the arguments it was looked up for. -/
theorem isSome_value? {values : List Binary32} {scalar : Scalar}
    (found : find? name values.length = some function) (isScalar : function.scalar = some scalar) :
    (scalar.value? values).isSome = true := by
  obtain ⟨member, isArity, -⟩ := of_find? found
  have fits := arity_of_mem function member
  rw [isScalar, Option.all_some, beq_iff_eq] at fits
  rw [Scalar.isSome_value?, fits, isArity, beq_self_eq_true]

end Function

/-! ## Walks -/

/-- The fault of a result. -/
def fault? {α : Type} : Except Fault α → Option Fault
  | .ok _ => none
  | .error fault => some fault

section Faults

variable {α : Type} {result : Except Fault α} {fault : Fault}

@[simp] theorem fault?_ok (value : α) : fault? (.ok value) = none := rfl

@[simp] theorem fault?_error : fault? (.error fault : Except Fault α) = some fault := rfl

theorem findSome?_cons_or {β : Type} (own : β → Option Fault) (node : β) (rest : List β) :
    (node :: rest).findSome? own = (own node).or (rest.findSome? own) := by
  rw [List.findSome?_cons]
  cases own node <;> rfl

theorem fault?_eq_none_iff : fault? result = none ↔ ∃ value, result = .ok value := by
  cases result <;> simp

theorem fault?_eq_some_iff : fault? result = some fault ↔ result = .error fault := by
  cases result <;> simp

end Faults

namespace Expr

/-- The nodes of a tree: each before its parts, and the parts from left to right. -/
def nodes : Expr → List Expr
  | number value => [number value]
  | image slot => [image slot]
  | intrinsic name span => [intrinsic name span]
  | binary lhs op rhs => binary lhs op rhs :: (lhs.nodes ++ rhs.nodes)
  | unary name arg span => unary name arg span :: arg.nodes
  | binaryCall name first second span =>
    binaryCall name first second span :: (first.nodes ++ second.nodes)
  | tertiary name first second third span =>
    tertiary name first second third span :: (first.nodes ++ second.nodes ++ third.nodes)

theorem nodes_eq (e : Expr) : e.nodes = e :: e.children.flatMap nodes := by
  cases e <;> simp [nodes, children]

/-- What passes from the parts of a tree to the tree holds of all trees. -/
theorem children_induction {motive : Expr → Prop}
    (pass : ∀ e, (∀ part ∈ e.children, motive part) → motive e) (e : Expr) : motive e := by
  induction e with
  | number | image | intrinsic => exact pass _ (by simp [children])
  | unary name arg span ih => exact pass _ (by simpa [children] using ih)
  | binary lhs op rhs ihl ihr => exact pass _ (by simpa [children] using ⟨ihl, ihr⟩)
  | binaryCall name first second span ihf ihs =>
      exact pass _ (by simpa [children] using ⟨ihf, ihs⟩)
  | tertiary name first second third span ihf ihs iht =>
      exact pass _ (by simpa [children] using ⟨ihf, ihs, iht⟩)

/-- The calls of a tree, in the order of its nodes. -/
def calls (e : Expr) : List (String × List Expr × Span) := e.nodes.filterMap callParts?

/-- A fault is that of the first node that has one. -/
def FirstFault (own : Expr → Option Fault) (e : Expr) (fault : Fault) : Prop :=
  ∃ before node after, e.nodes = before ++ node :: after ∧ own node = some fault ∧
    ∀ earlier ∈ before, own earlier = none

variable {α : Type} {e : Expr}

theorem fault?_collect (results : List (Except Fault α)) :
    fault? (collect results) = results.findSome? fault? := by
  induction results with
  | nil => rfl
  | cons first more ih =>
      cases first with
      | error fault => rfl
      | ok value =>
          rw [List.findSome?_cons, fault?_ok, ← ih, collect]
          cases collect more <;> rfl

section Walk

variable {walk : Expr → Except Fault α} {own : Expr → Option Fault}

theorem findSome?_parts {parts : List Expr}
    (ih : ∀ part ∈ parts, fault? (walk part) = part.nodes.findSome? own) :
    (parts.findSome? fun part => fault? (walk part)) = (parts.flatMap nodes).findSome? own := by
  induction parts with
  | nil => rfl
  | cons part more ih' =>
      rw [findSome?_cons_or, List.flatMap_cons, List.findSome?_append, ih part (.head _),
        ih' fun part member => ih part (.tail _ member)]

/-- A walk that reports the fault of a node, or else that of the first part to report one, reports
the fault of the first node. -/
theorem fault?_walk
    (step : ∀ e, fault? (walk e) = (own e).or (e.children.findSome? fun part => fault? (walk part)))
    (e : Expr) : fault? (walk e) = e.nodes.findSome? own := by
  induction e using children_induction with
  | pass e ih => rw [step, nodes_eq, findSome?_cons_or, findSome?_parts ih]

/-- Such a walk comes to an end if no node is at fault, and else with the fault of the first. -/
theorem outcome_of_step
    (step : ∀ e, fault? (walk e) = (own e).or (e.children.findSome? fun part => fault? (walk part)))
    (e : Expr) : ((∃ value, walk e = .ok value) ↔ ∀ node ∈ e.nodes, own node = none) ∧
      ∀ fault, walk e = .error fault ↔ e.FirstFault own fault := by
  have walked := fault?_walk step e
  constructor
  · rw [← fault?_eq_none_iff, walked, List.findSome?_eq_none_iff]
  · intro fault
    rw [← fault?_eq_some_iff, walked, List.findSome?_eq_some_iff]
    rfl

end Walk

theorem forall_calls (good : String → Nat → Bool) :
    (∀ name args span, (name, args, span) ∈ e.calls → good name args.length = true) ↔
      ∀ node ∈ e.nodes, ∀ name args span, node.callParts? = some (name, args, span) →
        good name args.length = true := by
  simp only [calls, List.mem_filterMap]
  constructor
  · intro all node member name args span isCall
    exact all name args span ⟨node, member, isCall⟩
  · rintro all name args span ⟨node, member, isCall⟩
    exact all node member name args span isCall

theorem mem_images {slot : Nat} : slot ∈ e.images ↔ image slot ∈ e.nodes := by
  induction e <;> simp_all [images, nodes]

/-! ## Shader texts -/

/-- The fault of a call that is not in the table. -/
def missing? (name : String) (arity : Nat) (span : Span) : Option Fault :=
  if Function.isKnown name arity then none else some (.unknownFunction name arity span)

/-- The fault of a node in the shader. -/
def shaderFault? (node : Expr) : Option Fault :=
  match node.callParts? with
  | some (name, args, span) => missing? name args.length span
  | none => none

theorem shaderFault?_eq_none_iff {node : Expr} : shaderFault? node = none ↔
    ∀ name args span, node.callParts? = some (name, args, span) →
      Function.isKnown name args.length = true := by
  cases node <;> simp [shaderFault?, missing?, callParts?]

theorem fault?_callShader (name : String) (args : List (Except Fault String)) (span : Span) :
    fault? (callShader name args span) =
      (missing? name args.length span).or (args.findSome? fault?) := by
  rw [missing?, ← Function.isSome_find?, ← fault?_collect, callShader]
  cases found : Function.find? name args.length with
  | none => rfl
  | some function =>
      cases collected : collect args with
      | error fault => rfl
      | ok texts =>
          -- the table rules out a shape that does not take the arguments
          rw [collect_eq_ok collected, List.length_map] at found
          obtain ⟨text, rendered⟩ := Option.isSome_iff_exists.mp (Function.isSome_render? found)
          simp [rendered]

theorem fault?_shader (e : Expr) : fault? e.shader =
    (shaderFault? e).or (e.children.findSome? fun part => fault? part.shader) := by
  cases e with
  | number | image => rfl
  | binary lhs op rhs =>
      simp only [shader, shaderFault?, callParts?, children, Option.none_or, findSome?_cons_or]
      cases lhs.shader <;> cases rhs.shader <;> rfl
  | intrinsic | unary | binaryCall | tertiary => exact fault?_callShader _ _ _

/-- A tree has a shader text just if all its calls are in the table of functions. Otherwise the
fault names the first call that is not, with the number of its arguments and its place. The shape of
a function is always given as many arguments as it takes. -/
theorem shader_firstFault (e : Expr) :
    ((∃ text, e.shader = .ok text) ↔
      ∀ name args span, (name, args, span) ∈ e.calls → Function.isKnown name args.length = true) ∧
    (∀ fault, e.shader = .error fault ↔ e.FirstFault shaderFault? fault) ∧
    ∀ name texts function, Function.find? name texts.length = some function →
      (function.shape.render? texts).isSome = true := by
  obtain ⟨accepted, refused⟩ := outcome_of_step fault?_shader e
  refine ⟨?_, refused, fun _ _ _ => Function.isSome_render?⟩
  rw [accepted, forall_calls Function.isKnown]
  simp only [shaderFault?_eq_none_iff]

/-- A missing function is reported before one in its arguments, and before one to its right. -/
theorem shader_firstFault_nested :
    let e := binaryCall "min" (unary "foo" (intrinsic "bar" ⟨8, 12⟩) ⟨4, 8⟩)
      (intrinsic "baz" ⟨15, 19⟩) ⟨0, 4⟩
    let colour := Function.shaderOnly "rgb" 3 .composeRgb
    e.shader = .error (.unknownFunction "foo" 1 ⟨4, 8⟩) ∧ Function.find? "RGB" 3 = some colour ∧
      (colour.shape.render? ["I0", "I1", "I2"]).isSome = true := by
  intro e colour
  obtain ⟨-, refused, written⟩ := shader_firstFault e
  have found : Function.find? "RGB" 3 = some colour := rfl
  refine ⟨(refused _).mpr ⟨[e], _, _, rfl, ?_, ?_⟩, found, written "RGB" _ colour found⟩
  · decide +kernel
  · decide +kernel

/-! ## Values -/

/-- The fault of a call that is not in the table, or there without a scalar. -/
def unvalued? (name : String) (arity : Nat) (span : Span) : Option Fault :=
  if Function.isKnown name arity then
    if Function.isNumeric name arity then none else some (.notSupported (.noNumericForm name))
  else some (.unknownFunction name arity span)

/-- The fault of a node that is to be folded. -/
def foldFault? (node : Expr) : Option Fault :=
  match node with
  | image slot => some (.notSupported (.imageValue slot))
  | node =>
    match node.callParts? with
    | some (name, args, span) => unvalued? name args.length span
    | none => none

theorem unvalued?_eq_none_iff {name : String} {arity : Nat} {span : Span} :
    unvalued? name arity span = none ↔ Function.isNumeric name arity = true := by
  unfold unvalued?
  cases numeric : Function.isNumeric name arity with
  | true => simp [Function.isKnown_of_isNumeric numeric]
  | false => cases Function.isKnown name arity <;> simp

theorem foldFault?_eq_none_iff {node : Expr} : foldFault? node = none ↔
    (∀ slot, node ≠ image slot) ∧ ∀ name args span, node.callParts? = some (name, args, span) →
      Function.isNumeric name args.length = true := by
  cases node <;> simp [foldFault?, callParts?, unvalued?_eq_none_iff]

theorem fault?_callValue (name : String) (args : List (Except Fault Binary32)) (span : Span) :
    fault? (callValue name args span) =
      (unvalued? name args.length span).or (args.findSome? fault?) := by
  rw [unvalued?, ← Function.isSome_find?, ← fault?_collect, callValue]
  cases found : Function.find? name args.length with
  | none => rfl
  | some function =>
      rw [Function.isNumeric_of_find? found]
      cases isScalar : function.scalar with
      | none => simp [isScalar]
      | some scalar =>
          cases collected : collect args with
          | error fault => simp [isScalar]
          | ok values =>
              -- the table rules out a scalar that does not take the arguments
              rw [collect_eq_ok collected, List.length_map] at found
              obtain ⟨value, isValue⟩ :=
                Option.isSome_iff_exists.mp (Function.isSome_value? found isScalar)
              simp [isScalar, isValue]

theorem fault?_fold (e : Expr) : fault? e.fold =
    (foldFault? e).or (e.children.findSome? fun part => fault? part.fold) := by
  cases e with
  | number | image => rfl
  | binary lhs op rhs =>
      simp only [fold, foldFault?, callParts?, children, Option.none_or, findSome?_cons_or]
      cases lhs.fold <;> cases rhs.fold <;> rfl
  | intrinsic | unary | binaryCall | tertiary => exact fault?_callValue _ _ _

/-- A tree has a value just if it has no image and all its calls are in the table of functions with
a scalar. Otherwise the fault is that of the first node at fault. So a tree with a value has a
shader text. The scalar of a function is always given as many arguments as it takes. -/
theorem fold_firstFault (e : Expr) :
    ((∃ value, e.fold = .ok value) ↔ e.images = [] ∧
      ∀ name args span, (name, args, span) ∈ e.calls → Function.isNumeric name args.length = true) ∧
    (∀ fault, e.fold = .error fault ↔ e.FirstFault foldFault? fault) ∧
    ((∃ value, e.fold = .ok value) → ∃ text, e.shader = .ok text) ∧
    ∀ name values function scalar, Function.find? name values.length = some function →
      function.scalar = some scalar → (scalar.value? values).isSome = true := by
  obtain ⟨accepted, refused⟩ := outcome_of_step fault?_fold e
  have noImage : e.images = [] ↔ ∀ node ∈ e.nodes, ∀ slot, node ≠ image slot := by
    rw [List.eq_nil_iff_forall_not_mem]
    simp only [mem_images]
    grind
  refine ⟨?_, refused, ?_, fun _ _ _ _ => Function.isSome_value?⟩
  · rw [accepted, noImage, forall_calls Function.isNumeric, ← forall₂_and]
    simp only [foldFault?_eq_none_iff]
  · intro valued
    rw [(outcome_of_step fault?_shader e).1]
    intro node member
    obtain ⟨-, numeric⟩ := foldFault?_eq_none_iff.mp (accepted.mp valued node member)
    refine shaderFault?_eq_none_iff.mpr fun name args span isCall => ?_
    exact Function.isKnown_of_isNumeric (numeric name args span isCall)

/-- A call without a value is reported before the image and the missing function in its
arguments. -/
theorem fold_firstFault_nested :
    let valued := unary "abs" (number .one) ⟨0, 4⟩
    let unvalued := binaryCall "dot" (image 0) (intrinsic "foo" ⟨16, 20⟩) ⟨8, 12⟩
    let greater := Function.binary "max" (.call "max") .maximum
    (binary valued .add unvalued).fold = .error (.notSupported (.noNumericForm "dot")) ∧
      valued.fold = .ok .one ∧ (∃ text, valued.shader = .ok text) ∧
      Function.find? "Max" 2 = some greater ∧
      ((Scalar.binary .maximum).value? [.one, .zero]).isSome = true := by
  intro valued unvalued greater
  obtain ⟨-, refused, -, -⟩ := fold_firstFault (binary valued .add unvalued)
  obtain ⟨-, -, written, given⟩ := fold_firstFault valued
  have folds : valued.fold = .ok .one := by decide +kernel
  have found : Function.find? "Max" 2 = some greater := rfl
  refine ⟨(refused _).mpr ⟨[_, _, _], _, _, rfl, ?_, ?_⟩, folds, written ⟨_, folds⟩, found,
    given "Max" _ greater _ found rfl⟩
  · decide +kernel
  · decide +kernel

end Expr

end ImageFormula
