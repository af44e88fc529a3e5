import Mathlib.Data.List.TakeDrop
import ImageFormula.Proofs.Depth
import ImageFormula.Proofs.Groups

/-!
# The engine as a parser

`Engine.run` takes the groups of a formula one by one, the last opener first. Each group that it
resolves leaves the reading of the formula as it was, so the engine accepts what `Reading.read`
accepts, with the same tree. The main statement is `run_eq_ok_iff_derives`: with a limit that the
formula cannot reach, the engine finds the tree of the grammar and fails where there is none.
-/

namespace ImageFormula

theorem Token.kind_of_isCloser {token : Token} (closes : token.isCloser = true) :
    token.kind = .bracketClose := by
  cases kind : token.kind <;> simp_all [Token.isCloser]

/-- What a token does to the number of open brackets. -/
theorem Reading.frames_of_next? {token : Token} {next : Reading} (r : Reading)
    (step : r.next? token = some next) :
    (token.isOpener = true → next.frames.length = r.frames.length + 1) ∧
      (token.isCloser = true → next.frames.length + 1 = r.frames.length) ∧
      (token.isOpener = false → token.isCloser = false →
        next.frames.length = r.frames.length) := by
  obtain ⟨frames, top⟩ := r
  cases kind : token.kind with
  | value expr =>
      simp only [Reading.next?, kind, Reading.operand?, Option.map_eq_some_iff] at step
      obtain ⟨top', -, rfl⟩ := step
      simp [Token.isOpener, Token.isCloser, kind]
  | operator op =>
      simp only [Reading.next?, kind, Option.map_eq_some_iff] at step
      obtain ⟨top', -, rfl⟩ := step
      simp [Token.isOpener, Token.isCloser, kind]
  | bracketOpen | functionStart name =>
      simp only [Reading.next?, kind, Reading.open?] at step
      split at step
      · contradiction
      · obtain rfl := Option.some.inj step
        simp [Token.isOpener, Token.isCloser, kind]
  | separator =>
      simp only [Reading.next?, kind, Reading.separate?] at step
      split at step
      · obtain rfl := Option.some.inj step
        simp [Token.isOpener, Token.isCloser, kind]
      · contradiction
  | bracketClose =>
      cases frames with
      | nil => simp [Reading.next?, kind, Reading.close?] at step
      | cons frame frames =>
          simp only [Reading.next?, kind, Reading.close?, Reading.operand?,
            Option.bind_eq_some_iff, Option.map_eq_some_iff] at step
          obtain ⟨expr, -, top', -, rfl⟩ := step
          simp [Token.isOpener, Token.isCloser, kind]

namespace Engine

/-! ## Balanced brackets -/

/-- Tokens that are no brackets. -/
abbrev Plain (tokens : List Token) : Prop :=
  ∀ token ∈ tokens, token.isOpener = false ∧ token.isCloser = false

theorem checkBrackets_opener {opened : List Span} {opener : Token} {rest : List Token}
    (opens : opener.isOpener = true) :
    checkBrackets opened (opener :: rest) = checkBrackets (opener.span :: opened) rest := by
  simp [checkBrackets.eq_def opened, opens]

theorem checkBrackets_closer {place : Span} {opened : List Span} {closer : Token}
    {rest : List Token} (closes : closer.kind = .bracketClose) :
    checkBrackets (place :: opened) (closer :: rest) = checkBrackets opened rest := by
  simp [checkBrackets, Token.isOpener, Token.isCloser, closes]

theorem checkBrackets_other {opened : List Span} {token : Token} {rest : List Token}
    (notOpener : token.isOpener = false) (notCloser : token.isCloser = false) :
    checkBrackets opened (token :: rest) = checkBrackets opened rest := by
  simp [checkBrackets.eq_def opened, notOpener, notCloser]

/-- Where a bracket is open and no opener follows, the next closer is there. -/
theorem exists_closer {place : Span} {opened : List Span} {tokens : List Token}
    (flat : ∀ token ∈ tokens, token.isOpener = false)
    (balanced : checkBrackets (place :: opened) tokens = .ok ()) :
    ∃ inside closer after, tokens = inside ++ closer :: after ∧ Plain inside ∧
      closer.kind = .bracketClose ∧ checkBrackets opened after = .ok () := by
  induction tokens with
  | nil => contradiction
  | cons token tokens ih =>
      have notOpener := flat token (.head _)
      cases closes : token.isCloser with
      | true =>
          have closes := Token.kind_of_isCloser closes
          rw [checkBrackets_closer closes] at balanced
          exact ⟨[], token, tokens, rfl, by simp [Plain], closes, balanced⟩
      | false =>
          rw [checkBrackets_other notOpener closes] at balanced
          obtain ⟨inside, closer, after, rfl, plain, rest⟩ :=
            ih (fun t member => flat t (.tail _ member)) balanced
          exact ⟨token :: inside, closer, after, rfl,
            List.forall_mem_cons.mpr ⟨⟨notOpener, closes⟩, plain⟩, rest⟩

/-- Where no bracket is open and no opener follows, there are no brackets. -/
theorem plain_of_flat {tokens : List Token} (flat : ∀ token ∈ tokens, token.isOpener = false)
    (balanced : checkBrackets [] tokens = .ok ()) : Plain tokens := by
  induction tokens with
  | nil => simp [Plain]
  | cons token tokens ih =>
      have notOpener := flat token (.head _)
      cases closes : token.isCloser with
      | true => simp [checkBrackets, notOpener, closes] at balanced
      | false =>
          rw [checkBrackets_other notOpener closes] at balanced
          have plain := ih (fun t member => flat t (.tail _ member)) balanced
          exact List.forall_mem_cons.mpr ⟨⟨notOpener, closes⟩, plain⟩

theorem Plain.append_inside {front tokens rest : List Token} (plain : Plain front)
    (inside : Inside tokens rest) : Inside (front ++ tokens) rest := by
  induction front with
  | nil => exact inside
  | cons token front ih =>
      obtain ⟨notOpener, notCloser⟩ := plain token (.head _)
      exact .next notOpener notCloser (ih fun t member => plain t (.tail _ member))

theorem Plain.inside {inside rest : List Token} (plain : Plain inside) {closer : Token}
    (closes : closer.kind = .bracketClose) : Inside (inside ++ [closer]) rest :=
  plain.append_inside (.close closes)

theorem inside_of_balanced {tokens : List Token} (flat : ∀ token ∈ tokens, token.isOpener = false)
    (balanced : checkBrackets [] tokens = .ok ()) : Inside tokens [] := by
  rw [← List.append_nil tokens]
  exact (plain_of_flat flat balanced).append_inside .finish

/-- A reading that is completed closes the brackets that are open and those that it opens. -/
theorem checkBrackets_of_read {tokens : List Token} {r : Reading} {opened : List Span}
    (reads : (r.read tokens).isSome) (open' : opened.length = r.frames.length) :
    checkBrackets opened tokens = .ok () := by
  induction tokens generalizing r opened with
  | nil =>
      cases frames : r.frames with
      | nil =>
          rw [frames, List.length_nil, List.length_eq_zero_iff] at open'
          rw [open']
          rfl
      | cons frame frames => simp [Reading.read, Reading.result?, frames] at reads
  | cons token tokens ih =>
      rw [Reading.read_cons] at reads
      cases step : r.next? token with
      | none => simp [step] at reads
      | some next =>
          rw [step, Option.bind_some] at reads
          obtain ⟨opens, closes, other⟩ := Reading.frames_of_next? r step
          cases isOpener : token.isOpener with
          | true =>
              rw [checkBrackets_opener isOpener]
              exact ih reads (by rw [List.length_cons, open', opens isOpener])
          | false =>
              cases isCloser : token.isCloser with
              | true =>
                  have shrinks := closes isCloser
                  cases opened with
                  | nil =>
                      rw [List.length_nil] at open'
                      omega
                  | cons place opened =>
                      rw [checkBrackets_closer (Token.kind_of_isCloser isCloser)]
                      rw [List.length_cons] at open'
                      exact ih reads (by omega)
              | false =>
                  rw [checkBrackets_other isOpener isCloser]
                  exact ih reads (by rw [open', other isOpener isCloser])

/-! ## The groups of a formula -/

section Groups

variable {engine : Engine} {limit : Nat} {group : List Token} {token : Token}

theorem resolveGroup_eq_ok (resolved : engine.resolveGroup group = .ok token) :
    engine.resolve group = .ok [token] := by
  unfold resolveGroup at resolved
  split at resolved
  · contradiction
  · rename_i same
    rw [same, Except.ok.inj resolved]
  · contradiction

/-- A group that does not come down to one token has no value: either a value is too deep, or
something is left that no rule matches. -/
theorem resolveGroup_eq_error {fault : Fault} (light : weight group ≤ limit)
    (failed : (standard limit).resolveGroup group = .error fault) :
    (∃ obstacle place, fault = .unresolvable obstacle place) ∧
      ∃ tokens, (standard limit).resolve group = .ok tokens ∧ ∀ token, tokens ≠ [token] := by
  obtain ⟨tokens, resolved⟩ := resolve_isOk light
  unfold resolveGroup at failed
  rw [resolved] at failed
  split at failed
  · contradiction
  · contradiction
  · rename_i several same
    obtain rfl := Except.ok.inj same
    obtain rfl := Except.error.inj failed
    exact ⟨⟨_, _, rfl⟩, tokens, resolved, fun token single => several token (by rw [single])⟩

theorem resolveGroups_other {rest result : List Token} (notOpener : token.isOpener = false)
    (resolved : engine.resolveGroups rest = .ok result) :
    engine.resolveGroups (token :: rest) = .ok (token :: result) := by
  simp [resolveGroups, resolved, notOpener]

/-- The group of an opener ends at the next closer. -/
theorem resolveGroups_opener {rest inside after : List Token} {closer : Token}
    (opens : token.isOpener = true) (plain : Plain inside) (closes : closer.kind = .bracketClose)
    (resolved : engine.resolveGroups rest = .ok (inside ++ closer :: after)) :
    engine.resolveGroups (token :: rest) =
      (engine.resolveGroup (token :: (inside ++ [closer]))).map (· :: after) := by
  have isCloser : closer.isCloser = true := by simp [Token.isCloser, closes]
  have cut : (inside ++ closer :: after).span (fun next => !next.isCloser) =
      (inside, closer :: after) := by
    rw [List.span_eq_takeWhile_dropWhile]
    have notCloser : ∀ next ∈ inside, (!next.isCloser) = true := by
      intro next member
      simp [(plain next member).2]
    rw [List.takeWhile_append_of_pos notCloser, List.dropWhile_append_of_pos notCloser]
    simp [isCloser]
  simp only [resolveGroups, resolved, opens, if_true, cut, List.cons_append, List.take_succ_cons,
    List.take_zero, List.drop_succ_cons, List.drop_zero]
  cases engine.resolveGroup (token :: (inside ++ [closer])) <;> rfl

end Groups

section Formula

variable {limit : Nat} {opened : List Span} {token closer : Token}
  {inside after tokens rest : List Token} {fault : Fault}

/-- A fault is raised for good reason: the tokens cannot be read, or they are too heavy. -/
def Rightly (limit : Nat) (tokens : List Token) (fault : Fault) : Prop :=
  weight tokens ≤ limit → (∃ obstacle place, fault = .unresolvable obstacle place) ∧
    ∀ r : Reading, r.read tokens = none

/-- What becomes of a bracket: a value that is read like it, or a fault. -/
theorem resolveGroup_bracket (limit : Nat) (after : List Token) (opens : token.isOpener = true)
    (plain : Plain inside) (closes : closer.kind = .bracketClose) :
    match (standard limit).resolveGroup (token :: (inside ++ [closer])) with
    | .ok value => (∃ expr, value.kind = .value expr) ∧
        weight [value] ≤ weight (token :: (inside ++ [closer])) ∧
        ∀ r : Reading, r.read (value :: after) = r.read (token :: (inside ++ closer :: after))
    | .error fault => Rightly limit (token :: (inside ++ closer :: after)) fault := by
  have group (r : Reading) : Group r (token :: (inside ++ [closer])) after :=
    .bracket opens (plain.inside closes)
  have joined : token :: (inside ++ closer :: after) = token :: (inside ++ [closer]) ++ after := by
    simp
  rw [joined]
  split
  · rename_i value resolved
    have resolved := resolveGroup_eq_ok resolved
    refine ⟨(resolve_single resolved (by simp)).1, resolve_weight resolved, ?_⟩
    intro r
    exact ((group r).resolve resolved).2.2
  · rename_i fault failed
    intro light
    rw [weight_append] at light
    obtain ⟨unresolvable, rest, resolved, several⟩ := resolveGroup_eq_error (by omega) failed
    refine ⟨unresolvable, ?_⟩
    intro r
    obtain ⟨normal, group, same⟩ := (group r).resolve resolved
    rw [← same]
    exact group.read_eq_none normal fun value single => absurd single (several value)

/-- What may become of a formula when its groups are resolved: a sequence without openers that is
read like it, or a fault. -/
inductive Faithful (limit : Nat) (opened : List Span) (tokens : List Token) :
    Except Fault (List Token) → Prop
  | ok {result : List Token} (flat : ∀ token ∈ result, token.isOpener = false)
      (balanced : checkBrackets opened result = .ok ()) (light : weight result ≤ weight tokens)
      (same : ∀ r : Reading, r.read result = r.read tokens) :
      Faithful limit opened tokens (.ok result)
  | error {fault : Fault} (rightly : Rightly limit tokens fault) :
      Faithful limit opened tokens (.error fault)

theorem read_cons_congr (same : ∀ r : Reading, r.read rest = r.read tokens) (r : Reading) :
    r.read (token :: rest) = r.read (token :: tokens) := by
  simp only [Reading.read_cons, same]

theorem Rightly.cons (rightly : Rightly limit tokens fault) :
    Rightly limit (token :: tokens) fault := by
  intro light
  rw [weight_cons] at light
  obtain ⟨unresolvable, absent⟩ := rightly (by omega)
  exact ⟨unresolvable, fun r => by simp only [Reading.read_cons, absent, Option.bind_fun_none]⟩

/-- A token that opens nothing, in a sequence whose brackets match. -/
theorem checkBrackets_next (notOpener : token.isOpener = false)
    (balanced : checkBrackets opened (token :: tokens) = .ok ()) :
    ∃ opened', checkBrackets opened' tokens = .ok () ∧
      ∀ rest, checkBrackets opened' rest = .ok () →
        checkBrackets opened (token :: rest) = .ok () := by
  cases closes : token.isCloser with
  | false =>
      rw [checkBrackets_other notOpener closes] at balanced
      exact ⟨opened, balanced, fun rest rests => by
        rw [checkBrackets_other notOpener closes, rests]⟩
  | true =>
      cases opened with
      | nil => simp [checkBrackets, notOpener, closes] at balanced
      | cons place opened =>
          have closes := Token.kind_of_isCloser closes
          rw [checkBrackets_closer closes] at balanced
          exact ⟨opened, balanced, fun rest rests => by rw [checkBrackets_closer closes, rests]⟩

/-- The step of `resolveGroups` at an opener: the inner groups are values already. -/
theorem faithful_opener (opens : token.isOpener = true)
    (resolved : (standard limit).resolveGroups tokens = .ok rest)
    (flat : ∀ token ∈ rest, token.isOpener = false)
    (balanced : checkBrackets (token.span :: opened) rest = .ok ())
    (light : weight rest ≤ weight tokens) (same : ∀ r : Reading, r.read rest = r.read tokens) :
    Faithful limit opened (token :: tokens) ((standard limit).resolveGroups (token :: tokens)) := by
  obtain ⟨inside, closer, after, rfl, plain, closes, balanced⟩ := exists_closer flat balanced
  rw [resolveGroups_opener opens plain closes resolved]
  have bracket := resolveGroup_bracket limit after opens plain closes
  simp only [weight_append, weight_cons, weight_nil] at light bracket
  split at bracket
  · rename_i value resolved
    obtain ⟨⟨expr, isValue⟩, lighter, same'⟩ := bracket
    have notOpener : value.isOpener = false := by simp [Token.isOpener, isValue]
    have notCloser : value.isCloser = false := by simp [Token.isCloser, isValue]
    rw [resolved]
    refine .ok ?_ ?_ ?_ fun r => (same' r).trans (read_cons_congr same r)
    · exact List.forall_mem_cons.mpr ⟨notOpener, fun t member => flat t (by simp [member])⟩
    · rw [checkBrackets_other notOpener notCloser, balanced]
    · simp only [weight_cons]
      omega
  · rename_i fault failed
    rw [failed]
    refine .error fun heavy => ?_
    rw [weight_cons] at heavy
    obtain ⟨unresolvable, absent⟩ := bracket (by simp only [weight_append, weight_cons]; omega)
    exact ⟨unresolvable, fun r => (read_cons_congr same r).symm.trans (absent r)⟩

theorem resolveGroups_faithful (balanced : checkBrackets opened tokens = .ok ()) :
    Faithful limit opened tokens ((standard limit).resolveGroups tokens) := by
  induction tokens generalizing opened with
  | nil => exact .ok (by simp) balanced (Nat.le_refl _) fun _ => rfl
  | cons token tokens ih =>
      -- the groups to the right go first, with one bracket more or less open
      generalize resolved : (standard limit).resolveGroups tokens = outcome at ih
      cases opens : token.isOpener with
      | false =>
          obtain ⟨opened', balanced, balances⟩ := checkBrackets_next opens balanced
          cases ih balanced with
          | ok flat balanced light same =>
              rw [resolveGroups_other opens resolved]
              refine .ok (List.forall_mem_cons.mpr ⟨opens, flat⟩) (balances _ balanced) ?_
                (read_cons_congr same)
              simp only [weight_cons]
              omega
          | error rightly =>
              rw [resolveGroups, resolved]
              exact .error rightly.cons
      | true =>
          rw [checkBrackets_opener opens] at balanced
          cases ih balanced with
          | ok flat balanced light same =>
              exact faithful_opener opens resolved flat balanced light same
          | error rightly =>
              rw [resolveGroups, resolved]
              exact .error rightly.cons

end Formula

/-! ## The whole formula -/

section Run

variable {limit : Nat} {tokens result : List Token} {fault : Fault} {expr : Expr}

theorem rootOf_eq_ok {token : Token} (root : rootOf token = .ok expr) :
    token.kind = .value expr := by
  unfold rootOf at root
  split at root
  · rename_i kind
    rw [kind, Except.ok.inj root]
  · contradiction

theorem rootOf_eq_error {token : Token} (root : rootOf token = .error fault) :
    (∃ obstacle place, fault = .unresolvable obstacle place) ∧
      ∀ expr, token.kind ≠ .value expr := by
  unfold rootOf at root
  split at root
  · contradiction
  · rename_i other
    exact ⟨⟨_, _, (Except.error.inj root).symm⟩, other⟩

theorem resolveGroups_ne_nil (nonempty : tokens ≠ [])
    (resolved : (standard limit).resolveGroups tokens = .ok result) : result ≠ [] := by
  cases tokens with
  | nil => contradiction
  | cons token tokens =>
      rw [resolveGroups] at resolved
      rintro rfl
      repeat' split at resolved
      all_goals simp at resolved

theorem two_le_length (nonempty : tokens ≠ []) (several : ∀ token, tokens ≠ [token]) :
    2 ≤ tokens.length := by
  rcases tokens with _ | ⟨token, _ | ⟨next, rest⟩⟩
  · contradiction
  · exact absurd rfl (several token)
  · simp

/-- A run that ends well has checked the brackets and resolved the groups and what is left. -/
theorem run_eq_ok (ran : (standard limit).run tokens = .ok expr) :
    checkBrackets [] tokens = .ok () ∧ ∃ rest, (standard limit).resolveGroups tokens = .ok rest ∧
      ∃ root, (rest = [root] ∨
        2 ≤ rest.length ∧ (standard limit).resolve rest = .ok [root]) ∧
        root.kind = .value expr := by
  simp only [run, bind, Except.bind] at ran
  split at ran
  · contradiction
  rename_i balanced
  split at ran
  · contradiction
  rename_i rest resolved
  refine ⟨balanced, rest, resolved, ?_⟩
  split at ran
  · contradiction
  · exact ⟨_, .inl rfl, rootOf_eq_ok ran⟩
  · rename_i several
    split at ran
    · contradiction
    rename_i root group
    exact ⟨root, .inr ⟨two_le_length ‹_› several, resolveGroup_eq_ok group⟩, rootOf_eq_ok ran⟩

theorem checkBrackets_eq_error {opened : List Span}
    (failed : checkBrackets opened tokens = .error fault) :
    ∃ obstacle place, fault = .unresolvable obstacle place := by
  induction tokens generalizing opened with
  | nil =>
      cases opened with
      | nil => contradiction
      | cons place opened => exact ⟨_, _, (Except.error.inj failed).symm⟩
  | cons token tokens ih =>
      cases opens : token.isOpener with
      | true => exact ih (checkBrackets_opener opens ▸ failed)
      | false =>
          cases closes : token.isCloser with
          | false => exact ih (checkBrackets_other opens closes ▸ failed)
          | true =>
              cases opened with
              | nil =>
                  simp only [checkBrackets, opens, closes] at failed
                  exact ⟨_, _, (Except.error.inj failed).symm⟩
              | cons place opened =>
                  exact ih (checkBrackets_closer (Token.kind_of_isCloser closes) ▸ failed)

/-- The tree that the engine finds is the tree of the grammar. -/
theorem derives_of_run (ran : (standard limit).run tokens = .ok expr) :
    Derives .sum tokens expr := by
  obtain ⟨balanced, rest, resolved, root, single, isValue⟩ := run_eq_ok ran
  have faithful : Faithful limit _ _ _ := resolveGroups_faithful balanced
  rw [resolved] at faithful
  cases faithful with
  | ok flat balanced light same =>
      have reads : Reading.start.read [root] = Reading.start.read tokens := by
        rw [← same]
        rcases single with rfl | ⟨-, resolved⟩
        · rfl
        · have group := Group.formula (inside_of_balanced flat balanced)
          simpa using (group.resolve resolved).2.2
      rw [derives_sum_iff_read, ← reads]
      exact derives_sum_iff_read.mp (.ofValue isValue)

/-- A formula that the engine does not take, and not because it is too deep, is none. -/
theorem run_eq_error (nonempty : tokens ≠ []) (light : weight tokens ≤ limit)
    (failed : (standard limit).run tokens = .error fault) :
    (∃ obstacle place, fault = .unresolvable obstacle place) ∧
      Reading.start.read tokens = none := by
  simp only [run, bind, Except.bind] at failed
  split at failed
  · -- the brackets do not match, and a reading would have closed them all
    rename_i unbalanced
    obtain rfl := Except.error.inj failed
    refine ⟨checkBrackets_eq_error unbalanced, ?_⟩
    cases reads : Reading.start.read tokens with
    | none => rfl
    | some expr =>
        rw [checkBrackets_of_read (by rw [reads]; rfl) rfl] at unbalanced
        contradiction
  rename_i balanced
  have faithful : Faithful limit _ _ _ := resolveGroups_faithful balanced
  split at failed
  · -- a group is stuck
    rename_i groups
    obtain rfl := Except.error.inj failed
    rw [groups] at faithful
    cases faithful with
    | error rightly =>
        obtain ⟨unresolvable, absent⟩ := rightly light
        exact ⟨unresolvable, absent .start⟩
  rename_i rest resolved
  rw [resolved] at faithful
  cases faithful with
  | ok flat balanced lighter same =>
      rw [← same]
      have group := Group.formula (inside_of_balanced flat balanced)
      split at failed
      · exact absurd rfl (resolveGroups_ne_nil nonempty resolved)
      · obtain ⟨unresolvable, other⟩ := rootOf_eq_error failed
        exact ⟨unresolvable, group.read_eq_none (normal_singleton _) fun _ single => by
          simpa [List.singleton_inj.mp single] using other⟩
      · rename_i several
        split at failed
        · -- what the groups leave is stuck
          rename_i leftover
          obtain rfl := Except.error.inj failed
          obtain ⟨unresolvable, left, resolved, several⟩ :=
            resolveGroup_eq_error (by omega) leftover
          obtain ⟨normal, group, same⟩ := group.resolve resolved
          rw [List.append_nil rest] at same
          rw [← same]
          exact ⟨unresolvable, group.read_eq_none normal fun value single =>
            absurd single (several value)⟩
        · -- the root comes from a rule, so it is a value and is returned
          rename_i root resolved
          have size := two_le_length (resolveGroups_ne_nil nonempty ‹_›) several
          obtain ⟨⟨expr, isValue⟩, -⟩ := resolve_single (resolveGroup_eq_ok resolved) size
          exact absurd isValue ((rootOf_eq_error failed).2 expr)

end Run

/-- With a limit that the formula cannot reach, the engine finds the tree of the grammar, and fails
where there is none. -/
theorem run_eq_ok_iff_derives {tokens : List Token} {limit : Nat} (nonempty : tokens ≠ [])
    (leaves : ∀ token ∈ tokens, token.depth ≤ 1) (fits : tokens.length ≤ limit) :
    (∀ expr, (standard limit).run tokens = .ok expr ↔ Derives .sum tokens expr) ∧
      ((¬ ∃ expr, Derives .sum tokens expr) →
        ∃ obstacle place, (standard limit).run tokens = .error (.unresolvable obstacle place)) := by
  have light : weight tokens ≤ limit := by rwa [weight_eq_length leaves]
  cases ran : (standard limit).run tokens with
  | ok found =>
      have derives := derives_of_run ran
      refine ⟨fun expr => ⟨?_, ?_⟩, fun absent => absurd ⟨found, derives⟩ absent⟩
      · intro same
        rwa [← Except.ok.inj same]
      · intro derives'
        rw [derives_sum_iff_read] at derives derives'
        rw [Option.some.inj (derives.symm.trans derives')]
  | error fault =>
      obtain ⟨⟨obstacle, place, rfl⟩, absent⟩ := run_eq_error nonempty light ran
      refine ⟨fun expr => ⟨by simp, ?_⟩, fun _ => ⟨obstacle, place, rfl⟩⟩
      intro derives
      rw [derives_sum_iff_read, absent] at derives
      contradiction

/-- In `I0^-I1^I2` the second `^` has an operand on each side and belongs to the run behind the
sign, the first has not and joins the chain. -/
theorem run_eq_ok_iff_derives_chain :
    let tokens := [Token.ofKind (.value (.image 0)) ⟨0, 2⟩, Token.ofKind (.operator .pow) ⟨2, 3⟩,
      Token.ofKind (.operator .sub) ⟨3, 4⟩, Token.ofKind (.value (.image 1)) ⟨4, 6⟩,
      Token.ofKind (.operator .pow) ⟨6, 7⟩, Token.ofKind (.value (.image 2)) ⟨7, 9⟩]
    (∀ token ∈ tokens, token.depth ≤ 1) ∧ tokens.length ≤ 6 ∧
      (standard 6).run tokens =
        .ok (.binary (.image 0) .pow (Expr.negate (.binary (.image 1) .pow (.image 2)))) := by
  intro tokens
  have leaves : ∀ token ∈ tokens, token.depth ≤ 1 := by decide
  have fits : tokens.length ≤ 6 := by decide
  refine ⟨leaves, fits, ((run_eq_ok_iff_derives (by decide) leaves fits).1 _).mpr ?_⟩
  have exponent : Derives .run (tokens.drop 3) (.binary (.image 1) .pow (.image 2)) :=
    .power rfl (.run (.value rfl)) (.value rfl)
  exact .sum (.product (.chainPower rfl rfl rfl (.chain (.unsigned (.run (.value rfl))))
    (.minus rfl (.unsigned exponent))))

end Engine

end ImageFormula
