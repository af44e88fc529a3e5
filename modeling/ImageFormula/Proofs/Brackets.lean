import ImageFormula.Proofs.Parsing

/-!
# Brackets that have none inside

An `InnerGroup` of a token sequence is an opener and the next bracket behind it, which is a closer.
Such brackets are the ones that can be resolved next. Two of them share no token
(`InnerGroup.eq_or_apart`), so each is still there after the other is replaced by a value, and the
order does not show in the end (`InnerGroup.swap`). Brackets that match still match after it
(`checkBrackets_replaced`).
-/

namespace ImageFormula

namespace Engine

/-- The tokens up to the next bracket, which is a closer, and what follows it. -/
structure Body (tokens : List Token) where
  inside : List Token
  closer : Token
  after : List Token
  plain : Plain inside
  closes : closer.kind = .bracketClose
  split : tokens = inside ++ closer :: after

namespace Body

variable {tokens : List Token}

theorem not_closer_of_plain {inside : List Token} {token : Token} (plain : Plain inside)
    (closes : token.kind = .bracketClose) : token ∉ inside := by
  intro member
  have notCloser := (plain token member).2
  simp [Token.isCloser, closes] at notCloser

theorem inside_unique {inside inside' after after' : List Token} {closer closer' : Token}
    (plain : Plain inside) (plain' : Plain inside') (closes : closer.kind = .bracketClose)
    (closes' : closer'.kind = .bracketClose)
    (same : inside ++ closer :: after = inside' ++ closer' :: after') : inside = inside' := by
  rcases List.append_eq_append_iff.mp same with ⟨more, rfl, rest⟩ | ⟨more, rfl, rest⟩
  · cases more with
    | nil => simp
    | cons token more =>
        obtain ⟨rfl, -⟩ := List.cons.inj rest
        exact absurd (by simp) (not_closer_of_plain plain' closes)
  · cases more with
    | nil => simp
    | cons token more =>
        obtain ⟨rfl, -⟩ := List.cons.inj rest
        exact absurd (by simp) (not_closer_of_plain plain closes')

/-- The next bracket is determined. -/
instance : Subsingleton (Body tokens) where
  allEq body body' := by
    obtain ⟨inside, closer, after, plain, closes, rfl⟩ := body
    obtain ⟨inside', closer', after', plain', closes', same⟩ := body'
    obtain rfl := inside_unique plain plain' closes closes' same
    obtain ⟨rfl, rfl⟩ := List.cons.inj (List.append_cancel_left same)
    rfl

/-- Where an opener follows, the body ends before it. -/
theorem before_opener {left right : List Token} {opener : Token} (opens : opener.isOpener = true)
    (body : Body (left ++ opener :: right)) :
    ∃ between, left = body.inside ++ body.closer :: between ∧
      body.after = between ++ opener :: right := by
  have notCloser : opener ≠ body.closer := by
    intro same
    simp [Token.isOpener, same, body.closes] at opens
  rcases List.append_eq_append_iff.mp body.split with ⟨more, isInside, rest⟩ | ⟨more, isLeft, rest⟩
  · cases more with
    | nil => exact absurd (List.cons.inj rest).1 notCloser
    | cons token more =>
        obtain ⟨rfl, -⟩ := List.cons.inj rest
        have notOpener := (body.plain opener (by rw [isInside]; simp)).1
        rw [opens] at notOpener
        contradiction
  · cases more with
    | nil => exact absurd (List.cons.inj rest).1.symm notCloser
    | cons token between =>
        obtain ⟨rfl, isAfter⟩ := List.cons.inj rest
        exact ⟨between, isLeft, isAfter⟩

/-- The tokens up to the next bracket, if that is a closer. -/
def find? : (tokens : List Token) → Option (Body tokens)
  | [] => none
  | token :: rest =>
    if closes : token.isCloser = true then
      some ⟨[], token, rest, by simp [Plain], Token.kind_of_isCloser closes, rfl⟩
    else if opens : token.isOpener = true then none
    else
      (find? rest).map fun body =>
        { body with
          inside := token :: body.inside
          plain := List.forall_mem_cons.mpr
            ⟨⟨eq_false_of_ne_true opens, eq_false_of_ne_true closes⟩, body.plain⟩
          split := congrArg (token :: ·) body.split }

theorem find?_eq_some (body : Body tokens) : find? tokens = some body := by
  obtain ⟨found, isFound⟩ : ∃ found, find? tokens = some found := by
    obtain ⟨inside, closer, after, plain, closes, rfl⟩ := body
    induction inside with
    | nil => simp [find?, Token.isCloser, closes]
    | cons token inside ih =>
        obtain ⟨notOpener, notCloser⟩ := plain token (.head _)
        obtain ⟨found, isFound⟩ := ih fun t member => plain t (.tail _ member)
        simp [find?, notOpener, notCloser, isFound]
  rw [isFound, Subsingleton.elim found body]

end Body

/-- A bracket of a sequence with no bracket inside it, and what stands around it. -/
structure InnerGroup (tokens : List Token) where
  before : List Token
  opener : Token
  rest : List Token
  opens : opener.isOpener = true
  body : Body rest
  split : tokens = before ++ opener :: rest

namespace InnerGroup

variable {tokens : List Token}

/-- The tokens of the bracket itself. -/
def group (bracket : InnerGroup tokens) : List Token :=
  bracket.opener :: (bracket.body.inside ++ [bracket.body.closer])

/-- The sequence with a value in place of the bracket. -/
def replaced (bracket : InnerGroup tokens) (value : Token) : List Token :=
  bracket.before ++ value :: bracket.body.after

/-- The bracket in a sequence with one token more. -/
def cons (token : Token) (bracket : InnerGroup tokens) : InnerGroup (token :: tokens) :=
  { bracket with
    before := token :: bracket.before
    split := congrArg (token :: ·) bracket.split }

/-- The bracket of an opener at the start of a sequence. -/
def ofBody {opener : Token} (opens : opener.isOpener = true) (body : Body tokens) :
    InnerGroup (opener :: tokens) :=
  ⟨[], opener, tokens, opens, body, rfl⟩

theorem shorter (bracket : InnerGroup tokens) (value : Token) :
    (bracket.replaced value).length < tokens.length := by
  obtain ⟨before, opener, rest, -, ⟨inside, closer, after, -, -, rfl⟩, rfl⟩ := bracket
  simp only [replaced, List.length_append, List.length_cons]
  omega

theorem two_le_group (bracket : InnerGroup tokens) : 2 ≤ bracket.group.length := by
  simp [group]

theorem opener_mem (bracket : InnerGroup tokens) : bracket.opener ∈ tokens := by
  have member : bracket.opener ∈ bracket.before ++ bracket.opener :: bracket.rest := by simp
  rwa [← bracket.split] at member

/-- Without brackets there is none to choose. -/
theorem not_plain (bracket : InnerGroup tokens) : ¬ Plain tokens := by
  intro plain
  have notOpener := (plain bracket.opener bracket.opener_mem).1
  rw [bracket.opens] at notOpener
  contradiction

/-- The first bracket ends before the second one starts. -/
def Apart (first second : InnerGroup tokens) : Prop :=
  ∃ between, second.before =
      first.before ++ first.opener :: (first.body.inside ++ first.body.closer :: between) ∧
    first.body.after = between ++ second.opener :: second.rest

theorem apart_of_before {first second : InnerGroup tokens} {token : Token} {more : List Token}
    (longer : second.before = first.before ++ token :: more)
    (rest : first.opener :: first.rest = token :: more ++ second.opener :: second.rest) :
    Apart first second := by
  obtain ⟨before, opener, _, opens, body, split⟩ := first
  obtain ⟨rfl, rfl⟩ := List.cons.inj rest
  obtain ⟨between, isMore, isAfter⟩ := body.before_opener second.opens
  refine ⟨between, longer.trans ?_, isAfter⟩
  exact congrArg (before ++ opener :: ·) isMore

theorem eq_of_before {first second : InnerGroup tokens} (same : first.before = second.before) :
    first = second := by
  obtain ⟨before, opener, rest, opens, body, rfl⟩ := first
  obtain ⟨before', opener', rest', opens', body', split⟩ := second
  obtain rfl : before = before' := same
  obtain ⟨rfl, rfl⟩ := List.cons.inj (List.append_cancel_left split)
  obtain rfl := Subsingleton.elim body body'
  rfl

/-- Two brackets of one sequence are the same or share no token. -/
theorem eq_or_apart (first second : InnerGroup tokens) :
    first = second ∨ Apart first second ∨ Apart second first := by
  have same := first.split.symm.trans second.split
  rcases List.append_eq_append_iff.mp same with ⟨more, longer, rest⟩ | ⟨more, longer, rest⟩
  · cases more with
    | nil => exact .inl (eq_of_before (by rw [longer, List.append_nil]))
    | cons token more => exact .inr (.inl (apart_of_before longer rest))
  · cases more with
    | nil => exact .inl (eq_of_before (by rw [longer, List.append_nil]))
    | cons token more => exact .inr (.inr (apart_of_before longer rest))

/-- After one bracket is replaced the other can still be chosen, and the order does not show in the
end. -/
theorem swap {first second : InnerGroup tokens} (differ : first ≠ second) (value : Token) :
    ∃ second' : InnerGroup (first.replaced value), second'.group = second.group ∧
      ∀ value', ∃ first' : InnerGroup (second.replaced value'), first'.group = first.group ∧
        first'.replaced value = second'.replaced value' := by
  rcases first.eq_or_apart second with same | ⟨between, isBefore, isAfter⟩ |
    ⟨between, isBefore, isAfter⟩
  · exact absurd same differ
  · refine ⟨⟨first.before ++ value :: between, second.opener, second.rest, second.opens,
      second.body, by simp [replaced, isAfter]⟩, rfl, ?_⟩
    intro value'
    refine ⟨⟨first.before, first.opener, _, first.opens, { first.body with
      after := between ++ value' :: second.body.after
      split := rfl }, by simp [replaced, isBefore]⟩, rfl, ?_⟩
    simp [replaced]
  · refine ⟨⟨second.before, second.opener, _, second.opens, { second.body with
      after := between ++ value :: first.body.after
      split := rfl }, by simp [replaced, isBefore]⟩, rfl, ?_⟩
    intro value'
    refine ⟨⟨second.before ++ value' :: between, first.opener, first.rest, first.opens, first.body,
      by simp [replaced, isAfter]⟩, rfl, ?_⟩
    simp [replaced]

end InnerGroup

/-! ## Brackets that match -/

section Balanced

variable {opened : List Span} {tokens : List Token}

theorem checkBrackets_plain {inside rest : List Token} (plain : Plain inside) :
    checkBrackets opened (inside ++ rest) = checkBrackets opened rest := by
  induction inside with
  | nil => rfl
  | cons token inside ih =>
      obtain ⟨notOpener, notCloser⟩ := plain token (.head _)
      rw [List.cons_append, checkBrackets_other notOpener notCloser]
      exact ih fun t member => plain t (.tail _ member)

theorem checkBrackets_tail {token : Token}
    (balanced : checkBrackets opened (token :: tokens) = .ok ()) :
    ∃ opened', checkBrackets opened' tokens = .ok () := by
  cases opens : token.isOpener with
  | true => exact ⟨_, checkBrackets_opener opens ▸ balanced⟩
  | false =>
      obtain ⟨opened', balanced, -⟩ := checkBrackets_next opens balanced
      exact ⟨opened', balanced⟩

theorem checkBrackets_append_congr {left right : List Token}
    (same : ∀ opened, checkBrackets opened left = checkBrackets opened right)
    (before : List Token) (opened : List Span) :
    checkBrackets opened (before ++ left) = checkBrackets opened (before ++ right) := by
  induction before generalizing opened with
  | nil => exact same opened
  | cons token before ih =>
      cases opens : token.isOpener with
      | true =>
          rw [List.cons_append, List.cons_append, checkBrackets_opener opens,
            checkBrackets_opener opens, ih]
      | false =>
          cases closes : token.isCloser with
          | false =>
              rw [List.cons_append, List.cons_append, checkBrackets_other opens closes,
                checkBrackets_other opens closes, ih]
          | true =>
              cases opened with
              | nil => simp [checkBrackets, opens, closes]
              | cons place opened =>
                  have closes := Token.kind_of_isCloser closes
                  rw [List.cons_append, List.cons_append, checkBrackets_closer closes,
                    checkBrackets_closer closes, ih]

/-- Brackets match as before when one is replaced by a value. -/
theorem checkBrackets_replaced (bracket : InnerGroup tokens) {value : Token} {expr : Expr}
    (isValue : value.kind = .value expr) (opened : List Span) :
    checkBrackets opened (bracket.replaced value) = checkBrackets opened tokens := by
  obtain ⟨before, opener, rest, opens, ⟨inside, closer, after, plain, closes, rfl⟩, rfl⟩ := bracket
  refine checkBrackets_append_congr ?_ before opened
  intro opened
  have notOpener : value.isOpener = false := by simp [Token.isOpener, isValue]
  have notCloser : value.isCloser = false := by simp [Token.isCloser, isValue]
  calc checkBrackets opened (value :: after)
      = checkBrackets opened after := checkBrackets_other notOpener notCloser
    _ = checkBrackets (opener.span :: opened) (closer :: after) :=
        (checkBrackets_closer closes).symm
    _ = checkBrackets (opener.span :: opened) (inside ++ closer :: after) :=
        (checkBrackets_plain plain).symm
    _ = checkBrackets opened (opener :: (inside ++ closer :: after)) :=
        (checkBrackets_opener opens).symm

end Balanced

end Engine

end ImageFormula
