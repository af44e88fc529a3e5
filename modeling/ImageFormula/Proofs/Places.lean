import ImageFormula.Command.Report
import ImageFormula.Proofs.FirstFaults
import ImageFormula.Proofs.Lexemes
import ImageFormula.Proofs.Listing

/-!
# The places of faults

Every fault of a formula is reported at a place of its text: from the start of a lexeme to the end
of one.

* **reading**: a word that cannot be read is reported where it stands;
* **rewriting**: tokens start in the places of their lexemes, and a step puts a value in the hull of
  the tokens that it takes, which is a place again (`Step.placed`). So all tokens of a run have
  places, and with them all its faults (`Engine.run_endsPlaced`);
* **calls**: a call keeps the place of its name, which is a lexeme, and a walk over the tree reports
  an unknown function there (`Expr.callsAt_of_walk`).

The main statement is `Limits.fault_isPlaced`.
-/

namespace ImageFormula

/-! ## Places -/

/-- A place of a text: from the start of a lexeme to the end of one, and not empty. -/
structure Span.IsPlace (text : String) (span : Span) : Prop where
  nonempty : span.start < span.stop
  inside : span.stop ≤ text.length
  starts : ∃ lexeme ∈ Lexeme.cut text, lexeme.span.start = span.start
  stops : ∃ lexeme ∈ Lexeme.cut text, lexeme.span.stop = span.stop

/-- The fault has a place in the text. -/
def Fault.IsPlaced (text : String) (fault : Fault) : Prop :=
  ∃ span, fault.span? = some span ∧ span.IsPlace text

/-- All tokens have places in the text. -/
def Placed (text : String) (tokens : List Token) : Prop := ∀ token ∈ tokens, token.span.IsPlace text

variable {text : String}

theorem Lexeme.isPlace {lexeme : Lexeme} (member : lexeme ∈ cut text) :
    lexeme.span.IsPlace text := by
  obtain ⟨piece, stands⟩ := exists_stands member
  refine ⟨stands.start_lt_stop, ?_, ⟨lexeme, member, rfl⟩, ⟨lexeme, member, rfl⟩⟩
  rw [← String.length_toList]
  exact stands.stop_le_length

namespace Span

variable {a b : Span}

/-- The ends of the smallest span that covers two places are ends of the two. -/
theorem IsPlace.merge (left : a.IsPlace text) (right : b.IsPlace text) :
    (a.merge b).IsPlace text where
  nonempty := by
    have := left.nonempty
    show min a.start b.start < max a.stop b.stop
    omega
  inside := Nat.max_le.mpr ⟨left.inside, right.inside⟩
  starts := by
    show ∃ lexeme ∈ Lexeme.cut text, lexeme.span.start = min a.start b.start
    rcases Nat.le_total a.start b.start with first | first
    · rw [Nat.min_eq_left first]
      exact left.starts
    · rw [Nat.min_eq_right first]
      exact right.starts
  stops := by
    show ∃ lexeme ∈ Lexeme.cut text, lexeme.span.stop = max a.stop b.stop
    rcases Nat.le_total a.stop b.stop with last | last
    · rw [Nat.max_eq_right last]
      exact right.stops
    · rw [Nat.max_eq_left last]
      exact left.stops

theorem isPlace_foldl {spans : List Span} (first : a.IsPlace text)
    (places : ∀ span ∈ spans, span.IsPlace text) : (spans.foldl merge a).IsPlace text := by
  induction spans generalizing a with
  | nil => exact first
  | cons span spans ih =>
      obtain ⟨isPlace, places⟩ := List.forall_mem_cons.mp places
      exact ih (first.merge isPlace) places

end Span

theorem Placed.append {left right : List Token} :
    Placed text (left ++ right) ↔ Placed text left ∧ Placed text right := by
  simp [Placed, or_imp, forall_and]

theorem Placed.cons {token : Token} {tokens : List Token} :
    Placed text (token :: tokens) ↔ token.span.IsPlace text ∧ Placed text tokens := by
  simp [Placed]

/-- The hull of tokens with places is a place. -/
theorem Placed.hull? {tokens : List Token} (placed : Placed text tokens) (nonempty : tokens ≠ []) :
    ∃ span, Token.hull? tokens = some span ∧ span.IsPlace text := by
  cases tokens with
  | nil => contradiction
  | cons token tokens =>
      obtain ⟨first, placed⟩ := Placed.cons.mp placed
      refine ⟨_, rfl, Span.isPlace_foldl first ?_⟩
      intro span member
      obtain ⟨token', inTokens, rfl⟩ := List.mem_map.mp member
      exact placed token' inTokens

/-! ## Rewriting -/

theorem Step.placed {tokens next : List Token} {value : Token} (step : Step tokens value next)
    (placed : Placed text tokens) : Placed text next := by
  obtain ⟨before, taken, after, rfl, rfl, size, reducer, applied⟩ := step.split
  simp only [Placed.append, Placed.cons] at placed ⊢
  have nonempty : taken ≠ [] := List.ne_nil_of_length_pos (by omega)
  obtain ⟨span, isHull, isPlace⟩ := placed.2.1.hull? nonempty
  refine ⟨placed.1, ?_, placed.2.2⟩
  rw [Reducer.span_of_apply applied, isHull]
  exact isPlace

/-- How a stage ends: with a result of the given kind, or with a fault that has a place. -/
def EndsPlaced {α : Type} (text : String) (holds : α → Prop) : Except Fault α → Prop
  | .ok result => holds result
  | .error fault => fault.IsPlaced text

theorem EndsPlaced.bind {α β : Type} {holds : α → Prop} {holds' : β → Prop}
    {first : Except Fault α} {second : α → Except Fault β} (ends : EndsPlaced text holds first)
    (continues : ∀ result, holds result → EndsPlaced text holds' (second result)) :
    EndsPlaced text holds' (first >>= second) := by
  cases first with
  | ok result => exact continues result ends
  | error fault => exact ends

namespace Engine

variable {limit : Nat} {tokens group : List Token}

theorem resolve_endsPlaced (placed : Placed text tokens) :
    EndsPlaced text (Placed text) ((standard limit).resolve tokens) := by
  induction tokens using rewriting_induction with
  | normal tokens normal =>
      rw [resolve_of_normal normal]
      exact placed
  | step tokens value next isStep ih =>
      have placed := isStep.placed placed
      rw [resolve_of_step isStep]
      split
      · exact ⟨value.span, rfl, placed value isStep.mem⟩
      · exact ih placed

theorem resolveGroup_endsPlaced (nonempty : group ≠ []) (placed : Placed text group) :
    EndsPlaced text (fun token => token.span.IsPlace text)
      ((standard limit).resolveGroup group) := by
  have ends : EndsPlaced text _ _ := @resolve_endsPlaced text limit group placed
  obtain ⟨span, isHull, isPlace⟩ := placed.hull? nonempty
  rw [resolveGroup]
  split
  · rename_i fault failed
    rwa [failed] at ends
  · rename_i token resolved
    rw [resolved] at ends
    exact ends token (.head _)
  · rename_i rest several resolved
    rw [resolved] at ends
    cases rest with
    | nil => exact ⟨span, isHull, isPlace⟩
    | cons token rest =>
        obtain ⟨span', isHull', isPlace'⟩ := Placed.hull? ends (by simp)
        exact ⟨span', by simp [Fault.span?, isHull'], isPlace'⟩

theorem checkBrackets_endsPlaced {opened : List Span}
    (places : ∀ span ∈ opened, span.IsPlace text) (placed : Placed text tokens) :
    EndsPlaced text (fun _ => True) (checkBrackets opened tokens) := by
  induction tokens generalizing opened with
  | nil =>
      cases opened with
      | nil => trivial
      | cons last opened => exact ⟨last, rfl, places last (.head _)⟩
  | cons token tokens ih =>
      obtain ⟨isPlace, placed⟩ := Placed.cons.mp placed
      cases opens : token.isOpener with
      | true =>
          rw [checkBrackets_opener opens]
          exact ih (List.forall_mem_cons.mpr ⟨isPlace, places⟩) placed
      | false =>
          cases closes : token.isCloser with
          | false =>
              rw [checkBrackets_other opens closes]
              exact ih places placed
          | true =>
              cases opened with
              | nil =>
                  simp only [checkBrackets, opens, closes]
                  exact ⟨token.span, rfl, isPlace⟩
              | cons last opened =>
                  rw [checkBrackets_closer (Token.kind_of_isCloser closes)]
                  exact ih (fun span member => places span (.tail _ member)) placed

theorem resolveGroups_endsPlaced (placed : Placed text tokens) :
    EndsPlaced text (Placed text) ((standard limit).resolveGroups tokens) := by
  induction tokens with
  | nil => exact placed
  | cons token tokens ih =>
      obtain ⟨isPlace, placed⟩ := Placed.cons.mp placed
      have ends := ih placed
      rw [resolveGroups]
      split
      · rename_i fault failed
        rwa [failed] at ends
      · rename_i rest resolved
        rw [resolved] at ends
        have all : Placed text (token :: rest) := Placed.cons.mpr ⟨isPlace, ends⟩
        split
        · -- the group and what follows it are cut from the tokens that have places
          have cut : token :: rest = (token :: (rest.span fun next => !next.isCloser).1 ++
              (rest.span fun next => !next.isCloser).2.take 1) ++
              (rest.span fun next => !next.isCloser).2.drop 1 := by
            rw [List.append_assoc, List.take_append_drop, List.span_eq_takeWhile_dropWhile]
            simp
          rw [cut, Placed.append] at all
          have group : EndsPlaced text _ _ :=
            @resolveGroup_endsPlaced text limit _ (by simp) all.1
          simp only
          split
          · rename_i fault failed
            rwa [failed] at group
          · rename_i value resolved
            rw [resolved] at group
            exact Placed.cons.mpr ⟨group, all.2⟩
        · exact all

theorem rootOf_endsPlaced {token : Token} (isPlace : token.span.IsPlace text) :
    EndsPlaced text (fun _ => True) (rootOf token) := by
  rw [rootOf]
  split
  · trivial
  · exact ⟨token.span, rfl, isPlace⟩

/-- A run over tokens with places ends in a tree, or in a fault that has a place. -/
theorem run_endsPlaced (nonempty : tokens ≠ []) (placed : Placed text tokens) :
    EndsPlaced text (fun _ => True) ((standard limit).run tokens) := by
  refine EndsPlaced.bind (checkBrackets_endsPlaced (by simp) placed) fun _ _ => ?_
  have groups : EndsPlaced text _ _ := @resolveGroups_endsPlaced text limit tokens placed
  cases resolved : (standard limit).resolveGroups tokens with
  | error fault =>
      rw [resolved] at groups
      exact groups
  | ok rest =>
      rw [resolved] at groups
      rcases rest with _ | ⟨token, _ | ⟨next, rest⟩⟩
      · exact absurd rfl (resolveGroups_ne_nil nonempty resolved)
      · exact rootOf_endsPlaced (groups token (.head _))
      · show EndsPlaced text _ ((standard limit).resolveGroup (token :: next :: rest) >>= rootOf)
        exact EndsPlaced.bind (resolveGroup_endsPlaced (by simp) groups) fun _ isPlace =>
          rootOf_endsPlaced isPlace

end Engine

/-! ## Reading -/

/-- A word that cannot be read is reported where it stands. -/
theorem Scope.span_of_readWord {bound : Nat} {usage : Usage} {word : String} {span : Span}
    {fault : Fault} {after : Scope}
    (failed : (images bound usage).readWord word span = (.error fault, after)) :
    fault.span? = some span := by
  simp only [readWord, resolve] at failed
  repeat' split at failed
  all_goals
    obtain ⟨isFault, -⟩ := Prod.mk.inj failed
    cases isFault <;> rfl

namespace Lexeme

variable {bound : Nat} {usage : Usage} {fault : Fault} {after : Scope}

theorem span_of_token {lexeme : Lexeme}
    (failed : lexeme.token (.images bound usage) = (.error fault, after)) :
    fault.span? = some lexeme.span := by
  unfold token at failed
  cases kind : lexeme.kind with
  | word text =>
      simp only [kind] at failed
      split at failed
      · simp at failed
      · rename_i fault' after' isWord
        obtain ⟨isFault, -⟩ := Prod.mk.inj failed
        obtain rfl := Except.error.inj isFault
        exact Scope.span_of_readWord isWord
  | operator op | bracketOpen | bracketClose | separator | functionStart name =>
      simp [kind] at failed

/-- The fault of a text is that of one of its lexemes. -/
theorem span_of_tokens {lexemes : List Lexeme}
    (failed : tokens lexemes (.images bound usage) = (.error fault, after)) :
    ∃ lexeme ∈ lexemes, fault.span? = some lexeme.span := by
  induction lexemes generalizing usage after with
  | nil => simp [tokens] at failed
  | cons lexeme lexemes ih =>
      cases isKind : lexeme.kind.token? bound with
      | none =>
          obtain ⟨fault', isFault⟩ := token_images_error isKind usage
          simp only [tokens, isFault] at failed
          obtain ⟨same, -⟩ := Prod.mk.inj failed
          rw [Except.error.inj same] at isFault
          exact ⟨lexeme, .head _, span_of_token isFault⟩
      | some kind =>
          simp only [tokens, token_images isKind] at failed
          split at failed
          · rename_i fault' final isFault
            obtain ⟨same, -⟩ := Prod.mk.inj failed
            rw [Except.error.inj same] at isFault
            obtain ⟨other, inRest, isSpan⟩ := ih isFault
            exact ⟨other, .tail _ inRest, isSpan⟩
          · simp at failed

theorem placed_of_reads {tokens' : List Token}
    (reads : List.Forall₂ (Reads bound) (cut text) tokens') : Placed text tokens' := by
  intro token member
  obtain ⟨lexeme, inCut, kind, -, rfl⟩ := exists_lexeme reads member
  exact isPlace inCut

end Lexeme

/-! ## Calls -/

namespace Expr

/-- The tree has a call whose name stands there. -/
def CallsAt (expr : Expr) (place : Span) : Prop := ∃ name, .call name place ∈ expr.items

variable {expr part node : Expr} {place : Span}

theorem CallsAt.of_child (member : part ∈ expr.children) (calls : part.CallsAt place) :
    expr.CallsAt place := by
  obtain ⟨name, inItems⟩ := calls
  refine ⟨name, ?_⟩
  cases expr with
  | number | image | intrinsic => simp [children] at member
  | binary lhs op rhs =>
      simp only [children, List.mem_cons, List.not_mem_nil, or_false] at member
      cases factor : lhs.isMinusOne with
      | false =>
          rw [items_binary factor, List.mem_append]
          rcases member with rfl | rfl
          · exact .inl inItems
          · exact .inr inItems
      | true =>
          -- the factor of a negation is left out of the items, but it has no calls
          obtain ⟨value, rfl⟩ : ∃ value, lhs = number value := by
            cases lhs <;> simp_all [isMinusOne]
          rcases member with rfl | rfl
          · simp [items] at inItems
          · simp only [items]
            split <;> simp [inItems]
  | unary | binaryCall | tertiary =>
      simp only [children, List.mem_cons, List.not_mem_nil, or_false] at member
      simp only [items, List.mem_cons, List.mem_append]
      grind

/-- A call among the nodes of a tree is one of its items. -/
theorem callsAt_of_mem_nodes {name : String} {args : List Expr}
    (isCall : node.callParts? = some (name, args, place)) (member : node ∈ expr.nodes) :
    expr.CallsAt place := by
  induction expr using children_induction with
  | pass expr ih =>
      rw [nodes_eq] at member
      rcases List.mem_cons.mp member with rfl | inside
      · refine ⟨name, ?_⟩
        cases node <;> simp_all [callParts?, items]
      · obtain ⟨part, isPart, inPart⟩ := List.mem_flatMap.mp inside
        exact .of_child isPart (ih part isPart inPart)

section Unknown

variable {name : String} {arity : Nat}

/-- A walk that misses functions at the places of their calls misses each at a call of the tree. -/
theorem callsAt_of_walk {α : Type} {walk : Expr → Except Fault α} {own : Expr → Option Fault}
    (step : ∀ e, fault? (walk e) = (own e).or (e.children.findSome? fun part => fault? (walk part)))
    (places : ∀ node, own node = some (.unknownFunction name arity place) →
      ∃ called args, node.callParts? = some (called, args, place))
    (failed : walk expr = .error (.unknownFunction name arity place)) : expr.CallsAt place := by
  have first : expr.FirstFault own _ := ((outcome_of_step step expr).2 _).mp failed
  obtain ⟨before, node, after, split, isOwn, -⟩ := first
  obtain ⟨called, args, isCall⟩ := places node isOwn
  have member : node ∈ expr.nodes := by simp [split]
  exact callsAt_of_mem_nodes isCall member

theorem isCall_of_shaderFault?
    (missing : shaderFault? node = some (.unknownFunction name arity place)) :
    ∃ called args, node.callParts? = some (called, args, place) := by
  unfold shaderFault? missing? at missing
  grind

theorem isCall_of_foldFault?
    (missing : foldFault? node = some (.unknownFunction name arity place)) :
    ∃ called args, node.callParts? = some (called, args, place) := by
  unfold foldFault? unvalued? at missing
  grind

end Unknown

end Expr

/-- A call of the tree stands where the text has its name. -/
theorem Derives.isPlace_of_callsAt {bound : Nat} {tokens : List Token} {expr : Expr} {place : Span}
    (derives : Derives .sum tokens expr)
    (reads : List.Forall₂ (Lexeme.Reads bound) (Lexeme.cut text) tokens)
    (calls : expr.CallsAt place) : place.IsPlace text := by
  obtain ⟨name, inItems⟩ := calls
  rw [derives.items (formulaToken_of_reads reads)] at inItems
  obtain ⟨token, inTokens, inToken⟩ := List.mem_flatMap.mp inItems
  have isPlace := Lexeme.placed_of_reads reads token inTokens
  cases isKind : token.kind with
  | functionStart =>
      obtain ⟨-, rfl⟩ : _ ∧ place = token.span := by
        simpa [Token.items_call isKind] using inToken
      exact isPlace
  | value expr =>
      obtain ⟨lexeme, -, isToken⟩ := Lexeme.exists_lexeme reads inTokens
      obtain ⟨word, value⟩ := isToken.exists_word isKind
      rw [Token.items_value isKind] at inToken
      rcases Scope.image_or_number_of_wordValue? value with ⟨slot, rfl, -⟩ | ⟨number, rfl⟩
      · simp [Expr.items] at inToken
      · simp [Expr.items] at inToken
  | operator | bracketOpen | bracketClose | separator =>
      simp [Token.items_nil isKind] at inToken

/-! ## Formulas -/

/-- The marker below a formula has a mark for each character of the place, and does not run past
the formula. -/
theorem Span.IsPlace.marker {span : Span} (isPlace : span.IsPlace text) :
    (Report.marker span).toList =
        List.replicate span.start ' ' ++ List.replicate (span.stop - span.start) '^' ∧
      (Report.marker span).length ≤ text.length := by
  have := isPlace.nonempty
  have := isPlace.inside
  have least : max span.length 1 = span.stop - span.start := by
    show max (span.stop - span.start) 1 = _
    omega
  constructor
  · simp [Report.marker, least]
  · simp [Report.marker, least]
    omega

namespace Limits

theorem compile_of_nothing (limits : Limits) (nothing : Lexeme.cut text = []) :
    limits.compile text = .error .emptyFormula := by
  simp [compile, Scope.tokens, nothing]

theorem compile_endsPlaced (limits : Limits) (something : Lexeme.cut text ≠ []) :
    EndsPlaced text (fun _ => True) (limits.compile text) := by
  unfold compile
  split
  · rename_i fault after failed
    simp only [Scope.tokens] at failed
    obtain ⟨lexeme, inCut, isSpan⟩ := Lexeme.span_of_tokens failed
    exact ⟨lexeme.span, isSpan, Lexeme.isPlace inCut⟩
  · rename_i tokens after read
    obtain ⟨nonempty, reads, -⟩ := Scope.tokens_eq_ok_iff.mp read
    have ends : EndsPlaced text _ _ :=
      @Engine.run_endsPlaced text limits.depth tokens nonempty (Lexeme.placed_of_reads reads)
    split
    · rename_i fault failed
      rwa [← engine, failed] at ends
    · trivial

/-- A formula is refused at a place of its text, unless there is nothing in it; so is a call of an
unknown function. The marker of a place is below its characters. -/
theorem fault_isPlaced (limits : Limits) (text : String) :
    (∀ fault, limits.compile text = .error fault → fault ≠ .emptyFormula → fault.IsPlaced text) ∧
    (limits.compile text = .error .emptyFormula ↔ Lexeme.cut text = []) ∧
    (∀ equation name arity span, limits.compile text = .ok equation →
      (equation.shader = .error (.unknownFunction name arity span) ∨
        equation.fold = .error (.unknownFunction name arity span)) →
      (Fault.unknownFunction name arity span).IsPlaced text) ∧
    ∀ span : Span, span.IsPlace text →
      (Report.marker span).toList =
        List.replicate span.start ' ' ++ List.replicate (span.stop - span.start) '^' ∧
      (Report.marker span).length ≤ text.length := by
  refine ⟨?_, ⟨?_, compile_of_nothing limits⟩, ?_, fun span => Span.IsPlace.marker⟩
  · intro fault failed notEmpty
    by_cases nothing : Lexeme.cut text = []
    · rw [compile_of_nothing limits nothing] at failed
      exact absurd (Except.error.inj failed).symm notEmpty
    · have ends := compile_endsPlaced limits nothing
      rwa [failed] at ends
  · intro failed
    by_contra something
    have ends := compile_endsPlaced limits something
    rw [failed] at ends
    obtain ⟨span, isSpan, -⟩ := ends
    contradiction
  · intro equation name arity span compiled failed
    obtain ⟨tokens, reads, derives, -, -⟩ := compile_eq_ok_iff.mp compiled
    refine ⟨span, rfl, derives.isPlace_of_callsAt reads ?_⟩
    rcases failed with failed | failed
    · exact Expr.callsAt_of_walk Expr.fault?_shader (fun _ => Expr.isCall_of_shaderFault?) failed
    · exact Expr.callsAt_of_walk Expr.fault?_fold (fun _ => Expr.isCall_of_foldFault?) failed

/-- In `I0+(1 2)*3` the group of two values is refused, in `max(I0,foo(1))` the name of the inner
call. -/
theorem fault_isPlaced_group :
    let group : Fault := .unresolvable .leftover (some ⟨3, 8⟩)
    let call : Fault := .unknownFunction "foo" 1 ⟨7, 11⟩
    let equation : Equation :=
      ⟨.binaryCall "max" (.image 0) (.unary "foo" (.number .one) ⟨7, 11⟩) ⟨0, 4⟩,
        ⟨some 0, some 0, some 0, [0]⟩⟩
    default.compile "I0+(1 2)*3" = .error group ∧ group.IsPlaced "I0+(1 2)*3" ∧
      default.compile "max(I0,foo(1))" = .ok equation ∧ equation.shader = .error call ∧
      call.IsPlaced "max(I0,foo(1))" := by
  intro group call equation
  have refused : default.compile "I0+(1 2)*3" = .error group := by decide +kernel
  have compiled : default.compile "max(I0,foo(1))" = .ok equation := by decide +kernel
  have missing : equation.shader = .error call := by decide +kernel
  exact ⟨refused, (fault_isPlaced default _).1 _ refused (by decide), compiled, missing,
    (fault_isPlaced default _).2.2.1 _ _ _ _ compiled (.inl missing)⟩

end Limits

end ImageFormula
