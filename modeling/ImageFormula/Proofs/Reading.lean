import ImageFormula.Proofs.Grammar

/-!
# Reading a formula from left to right

`Reading.read` finds the tree of a token sequence in one pass. Its state is what is still open: for
every bracket the sum, product, chain and signs that wait for their right side. The main statement
is `derives_sum_iff_read`: reading accepts exactly the phrases of the grammar, with their trees.

The pass is the bridge between the grammar and the engine of rules. A rewriting step replaces a few
neighbouring tokens by a value, and to compare two readings around such a step is a matter of a few
transitions, while a derivation would have to be taken apart and put together again.
-/

namespace ImageFormula

/-- What the last tokens of a signed phrase are. -/
inductive Phase where
  /-- No operand yet. -/
  | awaiting
  /-- A run. -/
  | holding (run : Expr)
  /-- A run and a `^`, which belongs to the run if an operand follows and to the chain if not. -/
  | raising (run : Expr)
  deriving DecidableEq

/-- An open sum: the left sides that wait for their right sides, and the signs of the current
signed phrase, the last one first. -/
structure Pending where
  sum : Option (Expr × Operator)
  product : Option (Expr × Operator)
  chain : Option (Expr × Operator)
  signs : List Operator
  phase : Phase
  deriving DecidableEq

namespace Pending

def start : Pending := ⟨none, none, none, [], .awaiting⟩

/-- A left side, if there is one, joined with its right side. -/
def join : Option (Expr × Operator) → Expr → Expr
  | none, right => right
  | some (left, op), right => .binary left op right

/-- A sign before an operand. -/
def applySign (expr : Expr) : Operator → Expr
  | .sub => expr.negate
  | _ => expr

/-- The chain read so far, if its last run is `run`. -/
def chainValue (p : Pending) (run : Expr) : Expr := join p.chain (p.signs.foldl applySign run)

/-- The product read so far, if its last run is `run`. -/
def productValue (p : Pending) (run : Expr) : Expr := join p.product (p.chainValue run)

/-- The sum read so far, if its last run is `run`. -/
def sumValue (p : Pending) (run : Expr) : Expr := join p.sum (p.productValue run)

/-- The open sum after an operand. -/
def operand? (p : Pending) (expr : Expr) : Option Pending :=
  match p.phase with
  | .awaiting => some { p with phase := .holding expr }
  | .raising run => some { p with phase := .holding (.binary run .pow expr) }
  | .holding _ => none

/-- The open sum after an operator. -/
def operator? (p : Pending) (op : Operator) : Option Pending :=
  match p.phase with
  | .holding run =>
    match op with
    | .pow => some { p with phase := .raising run }
    | .mul | .div => some { start with sum := p.sum, product := some (p.productValue run, op) }
    | .add | .sub => some { start with sum := some (p.sumValue run, op) }
  | .awaiting => if op.isSign then some { p with signs := op :: p.signs } else none
  | .raising run =>
    if op.isSign then
      some { p with chain := some (p.chainValue run, .pow), signs := [op], phase := .awaiting }
    else none

theorem operator?_times {p : Pending} {op : Operator} {run : Expr} (holds : p.phase = .holding run)
    (tier : op.tier = 2) :
    p.operator? op =
      some { start with sum := p.sum, product := some (p.productValue run, op) } := by
  cases op <;> simp_all [operator?, Operator.tier]

theorem operator?_add {p : Pending} {op : Operator} {run : Expr} (holds : p.phase = .holding run)
    (tier : op.tier = 3) :
    p.operator? op = some { start with sum := some (p.sumValue run, op) } := by
  cases op <;> simp_all [operator?, Operator.tier]

end Pending

/-- An open bracket: what it interrupts, the name and place of the call if it is one, and the
arguments that are complete. -/
structure Frame where
  outer : Pending
  call : Option (String × Span)
  args : List Expr

/-- The value of a bracket that is closed after `inside`. -/
def Frame.value? (frame : Frame) (inside : Pending) : Option Expr :=
  match frame.call, inside.phase with
  | none, .holding run => some (inside.sumValue run)
  | some (name, span), .holding run =>
    Expr.call? (Text.lower name) span (frame.args ++ [inside.sumValue run])
  | some (name, span), .awaiting =>
    if inside = .start ∧ frame.args = [] then Expr.call? (Text.lower name) span [] else none
  | _, _ => none

/-- The open brackets, the innermost first, and the open sum inside them. -/
structure Reading where
  frames : List Frame
  top : Pending

namespace Reading

def start : Reading := ⟨[], .start⟩

/-- The reading after an operand. -/
def operand? (r : Reading) (expr : Expr) : Option Reading :=
  (r.top.operand? expr).map fun top => ⟨r.frames, top⟩

/-- The reading after an opener. -/
def open? (r : Reading) (call : Option (String × Span)) : Option Reading :=
  match r.top.phase with
  | .holding _ => none
  | _ => some ⟨⟨r.top, call, []⟩ :: r.frames, .start⟩

/-- The reading after a separator. -/
def separate? (r : Reading) : Option Reading :=
  match r.frames, r.top.phase with
  | ⟨outer, some call, args⟩ :: frames, .holding run =>
    some ⟨⟨outer, some call, args ++ [r.top.sumValue run]⟩ :: frames, .start⟩
  | _, _ => none

/-- The reading after a closer. -/
def close? (r : Reading) : Option Reading :=
  match r.frames with
  | [] => none
  | frame :: frames => (frame.value? r.top).bind (Reading.operand? ⟨frames, frame.outer⟩)

/-- The reading after one more token. -/
def next? (r : Reading) (token : Token) : Option Reading :=
  match token.kind with
  | .value expr => r.operand? expr
  | .operator op => (r.top.operator? op).map fun top => ⟨r.frames, top⟩
  | .bracketOpen => r.open? none
  | .functionStart name => r.open? (some (name, token.span))
  | .separator => r.separate?
  | .bracketClose => r.close?

/-- The tree of a reading that is complete. -/
def result? (r : Reading) : Option Expr :=
  match r.frames, r.top.phase with
  | [], .holding run => some (r.top.sumValue run)
  | _, _ => none

/-- The tree of a formula of which `r` is the reading so far. -/
def read (r : Reading) : List Token → Option Expr
  | [] => r.result?
  | token :: rest => (r.next? token).bind fun next => next.read rest

end Reading

/-! ## Every phrase is read -/

/-- What reading a phrase does to the reading before it, whatever follows the phrase. -/
def Reads : Level → List Token → Expr → Prop
  | .primary, tokens, expr => ∀ (r : Reading) (rest : List Token),
      r.read (tokens ++ rest) = (r.operand? expr).bind fun next => next.read rest
  | .run, tokens, expr => ∀ (frames : List Frame) (p : Pending) (rest : List Token),
      p.phase = .awaiting →
        Reading.read ⟨frames, p⟩ (tokens ++ rest) =
          Reading.read ⟨frames, { p with phase := .holding expr }⟩ rest
  | .signed, tokens, expr => ∃ (signs : List Operator) (run : Expr),
      signs.foldl Pending.applySign run = expr ∧
        ∀ (frames : List Frame) (p : Pending) (rest : List Token), p.phase = .awaiting →
          Reading.read ⟨frames, p⟩ (tokens ++ rest) =
            Reading.read ⟨frames, { p with signs := signs ++ p.signs, phase := .holding run }⟩ rest
  | .chain, tokens, expr => ∃ (q : Pending) (run : Expr),
      q.phase = .holding run ∧ q.chainValue run = expr ∧
        ∀ (frames : List Frame) (sum product : Option (Expr × Operator)) (rest : List Token),
          Reading.read ⟨frames, { Pending.start with sum := sum, product := product }⟩
              (tokens ++ rest) =
            Reading.read ⟨frames, { q with sum := sum, product := product }⟩ rest
  | .product, tokens, expr => ∃ (q : Pending) (run : Expr),
      q.phase = .holding run ∧ q.productValue run = expr ∧
        ∀ (frames : List Frame) (sum : Option (Expr × Operator)) (rest : List Token),
          Reading.read ⟨frames, { Pending.start with sum := sum }⟩ (tokens ++ rest) =
            Reading.read ⟨frames, { q with sum := sum }⟩ rest
  | .sum, tokens, expr => ∃ (q : Pending) (run : Expr),
      q.phase = .holding run ∧ q.sumValue run = expr ∧
        ∀ (frames : List Frame) (rest : List Token),
          Reading.read ⟨frames, .start⟩ (tokens ++ rest) = Reading.read ⟨frames, q⟩ rest

theorem Reading.read_cons (r : Reading) (token : Token) (rest : List Token) :
    r.read (token :: rest) = (r.next? token).bind fun next => next.read rest := rfl

/-- A bracket that comes down to `value` once it is open is read as the operand `value`; where no
operand may stand, no bracket may. -/
theorem Reading.read_opener {r : Reading} {opener : Token} {call : Option (String × Span)}
    {inside rest : List Token} {value : Expr} (opens : r.next? opener = r.open? call)
    (reads : Reading.read ⟨⟨r.top, call, []⟩ :: r.frames, .start⟩ inside =
      (r.operand? value).bind fun next => next.read rest) :
    r.read (opener :: inside) = (r.operand? value).bind fun next => next.read rest := by
  rw [Reading.read_cons, opens]
  cases phase : r.top.phase with
  | holding run => simp [Reading.open?, Reading.operand?, Pending.operand?, phase]
  | awaiting => rw [← reads, Reading.open?, phase]; rfl
  | raising run => rw [← reads, Reading.open?, phase]; rfl

theorem Reading.read_separator {outer q : Pending} {call : String × Span} {args : List Expr}
    {frames : List Frame} {comma : Token} {rest : List Token} {run : Expr}
    (separates : comma.kind = .separator) (holds : q.phase = .holding run) :
    Reading.read ⟨⟨outer, some call, args⟩ :: frames, q⟩ (comma :: rest) =
      Reading.read ⟨⟨outer, some call, args ++ [q.sumValue run]⟩ :: frames, .start⟩ rest := by
  simp [Reading.read_cons, Reading.next?, separates, Reading.separate?, holds]

theorem Reading.read_closer {frame : Frame} {q : Pending} {frames : List Frame} {closer : Token}
    {rest : List Token} {value : Expr} (closes : closer.kind = .bracketClose)
    (values : frame.value? q = some value) :
    Reading.read ⟨frame :: frames, q⟩ (closer :: rest) =
      (Reading.operand? ⟨frames, frame.outer⟩ value).bind fun next => next.read rest := by
  simp [Reading.read_cons, Reading.next?, closes, Reading.close?, values]

theorem Frame.value?_call {outer q : Pending} {name : String} {span : Span} {args : List Expr}
    {run : Expr} (holds : q.phase = .holding run) :
    Frame.value? ⟨outer, some (name, span), args⟩ q =
      Expr.call? (Text.lower name) span (args ++ [q.sumValue run]) := by
  simp [Frame.value?, holds]

/-- A token that opens a bracket or a call is read as an opener. -/
theorem Reading.next?_bracketOpen {opener : Token} (r : Reading)
    (opens : opener.kind = .bracketOpen) : r.next? opener = r.open? none := by
  rw [Reading.next?, opens]

theorem Reading.next?_functionStart {opener : Token} {name : String} (r : Reading)
    (opens : opener.kind = .functionStart name) :
    r.next? opener = r.open? (some (name, opener.span)) := by
  rw [Reading.next?, opens]

theorem Reading.read_operator {frames : List Frame} {p : Pending} {token : Token} {op : Operator}
    {rest : List Token} (operates : token.kind = .operator op) :
    Reading.read ⟨frames, p⟩ (token :: rest) =
      (p.operator? op).bind fun top => Reading.read ⟨frames, top⟩ rest := by
  simp only [Reading.read_cons, Reading.next?, operates, Option.bind_map]
  rfl

theorem Derives.reads {level : Level} {tokens : List Token} {expr : Expr}
    (derives : Derives level tokens expr) : Reads level tokens expr := by
  induction derives with
  | value isValue =>
      intro r rest
      rw [List.singleton_append, Reading.read_cons, Reading.next?, isValue]
  | brackets opens closes _ body =>
      -- inside the bracket a new sum is read, which the closer makes an operand
      obtain ⟨q, run, holds, rfl, reads⟩ := body
      intro r rest
      rw [List.cons_append, List.append_assoc]
      apply Reading.read_opener (r.next?_bracketOpen opens)
      rw [reads]
      exact Reading.read_closer closes (by simp [Frame.value?, holds])
  | intrinsic opens closes =>
      intro r rest
      apply Reading.read_opener (r.next?_functionStart opens)
      exact Reading.read_closer closes (by simp [Frame.value?, Pending.start, Expr.call?])
  | unary opens closes _ body =>
      obtain ⟨q, run, holds, rfl, reads⟩ := body
      intro r rest
      rw [List.cons_append, List.append_assoc]
      apply Reading.read_opener (r.next?_functionStart opens)
      rw [reads]
      exact Reading.read_closer closes (by rw [Frame.value?_call holds]; rfl)
  | binaryCall opens separates closes _ _ body body' =>
      obtain ⟨q, run, holds, rfl, reads⟩ := body
      obtain ⟨q', run', holds', rfl, reads'⟩ := body'
      intro r rest
      simp only [List.cons_append, List.append_assoc]
      apply Reading.read_opener (r.next?_functionStart opens)
      rw [reads, Reading.read_separator separates holds, reads']
      exact Reading.read_closer closes (by rw [Frame.value?_call holds']; rfl)
  | tertiary opens separates separates' closes _ _ _ body body' body'' =>
      obtain ⟨q, run, holds, rfl, reads⟩ := body
      obtain ⟨q', run', holds', rfl, reads'⟩ := body'
      obtain ⟨q'', run'', holds'', rfl, reads''⟩ := body''
      intro r rest
      simp only [List.cons_append, List.append_assoc]
      apply Reading.read_opener (r.next?_functionStart opens)
      rw [reads, Reading.read_separator separates holds, reads',
        Reading.read_separator separates' holds', reads'']
      exact Reading.read_closer closes (by rw [Frame.value?_call holds'']; rfl)
  | run _ primary =>
      intro frames p rest awaits
      rw [primary]
      simp [Reading.operand?, Pending.operand?, awaits]
  | power raises _ _ run primary =>
      intro frames p rest awaits
      rw [List.append_assoc, List.cons_append, run frames p _ awaits, Reading.read_operator raises]
      simp only [Pending.operator?, Option.bind_some]
      rw [primary]
      simp [Reading.operand?, Pending.operand?]
  | unsigned _ run =>
      -- signs are collected from here on outwards, so the one in front is the last to be added
      refine ⟨[], _, rfl, ?_⟩
      intro frames p rest awaits
      rw [run frames p rest awaits]
      rfl
  | plus signs _ signed =>
      obtain ⟨ops, run, rfl, reads⟩ := signed
      refine ⟨ops ++ [.add], run, by simp [Pending.applySign], ?_⟩
      intro frames p rest awaits
      rw [List.cons_append, Reading.read_operator signs]
      simp only [Pending.operator?, awaits, Operator.isSign, if_true, Option.bind_some]
      rw [reads frames _ rest rfl]
      simp
  | minus signs _ signed =>
      obtain ⟨ops, run, rfl, reads⟩ := signed
      refine ⟨ops ++ [.sub], run, by simp [Pending.applySign], ?_⟩
      intro frames p rest awaits
      rw [List.cons_append, Reading.read_operator signs]
      simp only [Pending.operator?, awaits, Operator.isSign, if_true, Option.bind_some]
      rw [reads frames _ rest rfl]
      simp
  | chain _ signed =>
      obtain ⟨ops, run, rfl, reads⟩ := signed
      refine ⟨{ Pending.start with signs := ops, phase := .holding run }, run, rfl, rfl, ?_⟩
      intro frames sum product rest
      rw [reads frames _ rest rfl]
      simp [Pending.start]
  | chainPower raises signs isSign _ _ chain signed =>
      obtain ⟨q, base, holds, rfl, reads⟩ := chain
      obtain ⟨ops, run, rfl, reads'⟩ := signed
      refine ⟨⟨none, none, some (q.chainValue base, .pow), ops, .holding run⟩, run, rfl, rfl, ?_⟩
      intro frames sum product rest
      rw [List.append_assoc, reads, List.cons_append, Reading.read_operator raises]
      simp only [Pending.operator?, holds, Option.bind_some]
      -- the sign leaves the same state whether it ends a run or starts an empty signed phrase
      have same :=
        reads' frames ⟨sum, product, some (q.chainValue base, .pow), [], .awaiting⟩ rest rfl
      rw [List.cons_append, Reading.read_operator signs] at same ⊢
      simp only [Pending.operator?, isSign, if_true, Option.bind_some, List.append_nil] at same ⊢
      exact same
  | product _ chain =>
      obtain ⟨q, run, holds, rfl, reads⟩ := chain
      refine ⟨{ q with product := none }, run, holds, rfl, ?_⟩
      intro frames sum rest
      exact reads frames sum none rest
  | times operates tier _ _ product chain =>
      obtain ⟨q, run, holds, rfl, reads⟩ := product
      obtain ⟨q', run', holds', rfl, reads'⟩ := chain
      refine ⟨{ q' with product := some (q.productValue run, _) }, run', holds', rfl, ?_⟩
      intro frames sum rest
      rw [List.append_assoc, reads, List.cons_append, Reading.read_operator operates,
        Pending.operator?_times (p := { q with sum := sum }) holds tier, Option.bind_some]
      exact reads' frames sum _ rest
  | sum _ product =>
      obtain ⟨q, run, holds, rfl, reads⟩ := product
      refine ⟨{ q with sum := none }, run, holds, rfl, ?_⟩
      intro frames rest
      exact reads frames none rest
  | add operates tier _ _ sum product =>
      obtain ⟨q, run, holds, rfl, reads⟩ := sum
      obtain ⟨q', run', holds', rfl, reads'⟩ := product
      refine ⟨{ q' with sum := some (q.sumValue run, _) }, run', holds', rfl, ?_⟩
      intro frames rest
      rw [List.append_assoc, reads, List.cons_append, Reading.read_operator operates,
        Pending.operator?_add holds tier, Option.bind_some]
      exact reads' frames _ rest

/-! ## Everything read is a phrase

`Spelled r tokens` is the invariant of reading: `tokens` are the tokens read so far, cut into the
phrases that the left sides, signs and arguments of `r` stand for. -/

/-- The tokens of a left side with its operator. -/
def SpellsLeft (level : Level) (tier : Nat) : Option (Expr × Operator) → List Token → Prop
  | none, tokens => tokens = []
  | some (expr, op), tokens => op.tier = tier ∧ ∃ left token,
      tokens = left ++ [token] ∧ token.kind = .operator op ∧ Derives level left expr

theorem SpellsLeft.intro {level : Level} {expr : Expr} {op : Operator} {left : List Token}
    {token : Token} (derives : Derives level left expr) (operates : token.kind = .operator op) :
    SpellsLeft level op.tier (some (expr, op)) (left ++ [token]) :=
  ⟨rfl, left, token, rfl, operates, derives⟩

/-- The tokens of signs, the last one first. -/
def SpellsSigns : List Operator → List Token → Prop
  | [], tokens => tokens = []
  | op :: more, tokens => op.isSign ∧ ∃ before token,
      tokens = before ++ [token] ∧ token.kind = .operator op ∧ SpellsSigns more before

/-- The tokens after the signs of a signed phrase. -/
def SpellsPhase : Phase → List Token → Prop
  | .awaiting, tokens => tokens = []
  | .holding run, tokens => Derives .run tokens run
  | .raising run, tokens => ∃ left caret,
      tokens = left ++ [caret] ∧ caret.kind = .operator .pow ∧ Derives .run left run

/-- The tokens of an open sum. -/
inductive Pending.Spells : Pending → List Token → Prop
  | mk {sum product chain : Option (Expr × Operator)} {signs : List Operator} {phase : Phase}
      {sumTokens productTokens chainTokens signTokens runTokens : List Token}
      (spellsSum : SpellsLeft .sum 3 sum sumTokens)
      (spellsProduct : SpellsLeft .product 2 product productTokens)
      (spellsChain : SpellsLeft .chain 1 chain chainTokens)
      (spellsSigns : SpellsSigns signs signTokens)
      (signed : chain ≠ none → signs ≠ [])
      (spellsRun : SpellsPhase phase runTokens) :
      Pending.Spells ⟨sum, product, chain, signs, phase⟩
        (sumTokens ++ (productTokens ++ (chainTokens ++ (signTokens ++ runTokens))))

theorem Pending.spells_start : Pending.start.Spells [] := by
  show Pending.Spells ⟨none, none, none, [], .awaiting⟩ ([] ++ ([] ++ ([] ++ ([] ++ []))))
  exact .mk rfl rfl rfl rfl (fun h => absurd rfl h) rfl

theorem Pending.Spells.eq_nil {tokens : List Token} (spells : Pending.start.Spells tokens) :
    tokens = [] := by
  cases spells with
  | mk spellsSum spellsProduct spellsChain spellsSigns signed spellsRun =>
      obtain rfl : _ = [] := spellsSum
      obtain rfl : _ = [] := spellsProduct
      obtain rfl : _ = [] := spellsChain
      obtain rfl : _ = [] := spellsSigns
      obtain rfl : _ = [] := spellsRun
      rfl

/-- Signs in front of a signed phrase make a signed phrase. -/
theorem SpellsSigns.derives {signs : List Operator} {tokens after : List Token} {expr : Expr}
    (spells : SpellsSigns signs tokens) (signed : Derives .signed after expr) :
    Derives .signed (tokens ++ after) (signs.foldl Pending.applySign expr) := by
  induction signs generalizing tokens after expr with
  | nil =>
      obtain rfl := spells
      exact signed
  | cons op more ih =>
      obtain ⟨isSign, before, token, rfl, operates, spells⟩ := spells
      rw [List.append_assoc, List.singleton_append, List.foldl_cons]
      apply ih spells
      cases op with
      | add => exact .plus operates signed
      | sub => exact .minus operates signed
      | pow | mul | div => contradiction

/-- The first of the tokens of some signs is a sign. -/
theorem SpellsSigns.first {signs : List Operator} {tokens : List Token}
    (spells : SpellsSigns signs tokens) (some : signs ≠ []) :
    ∃ op token rest, tokens = token :: rest ∧ token.kind = .operator op ∧ op.isSign := by
  induction signs generalizing tokens with
  | nil => exact absurd rfl some
  | cons op more ih =>
      obtain ⟨isSign, before, token, rfl, operates, spells⟩ := spells
      cases more with
      | nil =>
          obtain rfl := spells
          exact ⟨op, token, [], rfl, operates, isSign⟩
      | cons op' more =>
          obtain ⟨op, first, rest, rfl, operates, isSign⟩ := ih spells (by simp)
          exact ⟨op, first, rest ++ [token], rfl, operates, isSign⟩

/-- A chain whose last run is complete. -/
theorem SpellsLeft.derives_chain {chain : Option (Expr × Operator)} {signs : List Operator}
    {chainTokens signTokens runTokens : List Token} {run : Expr}
    (spellsChain : SpellsLeft .chain 1 chain chainTokens)
    (spellsSigns : SpellsSigns signs signTokens) (signed : chain ≠ none → signs ≠ [])
    (derives : Derives .run runTokens run) :
    Derives .chain (chainTokens ++ (signTokens ++ runTokens))
      (Pending.join chain (signs.foldl Pending.applySign run)) := by
  have right := spellsSigns.derives (.unsigned derives)
  cases chain with
  | none =>
      obtain rfl := spellsChain
      exact .chain right
  | some base =>
      obtain ⟨base, caretOp⟩ := base
      obtain ⟨tier, left, caret, rfl, raises, chain⟩ := spellsChain
      obtain ⟨op, sign, rest, rfl, signs, isSign⟩ := spellsSigns.first (signed (by simp))
      cases caretOp with
      | pow =>
          rw [List.append_assoc]
          exact .chainPower raises signs isSign chain right
      | mul | div | add | sub => contradiction

theorem SpellsLeft.derives_product {product : Option (Expr × Operator)}
    {productTokens chainTokens : List Token} {value : Expr}
    (spells : SpellsLeft .product 2 product productTokens)
    (derives : Derives .chain chainTokens value) :
    Derives .product (productTokens ++ chainTokens) (Pending.join product value) := by
  cases product with
  | none =>
      obtain rfl := spells
      exact .product derives
  | some factor =>
      obtain ⟨tier, left, token, rfl, operates, product⟩ := spells
      rw [List.append_assoc]
      exact .times operates tier product derives

theorem SpellsLeft.derives_sum {sum : Option (Expr × Operator)}
    {sumTokens productTokens : List Token} {value : Expr}
    (spells : SpellsLeft .sum 3 sum sumTokens)
    (derives : Derives .product productTokens value) :
    Derives .sum (sumTokens ++ productTokens) (Pending.join sum value) := by
  cases sum with
  | none =>
      obtain rfl := spells
      exact .sum derives
  | some term =>
      obtain ⟨tier, left, token, rfl, operates, sum⟩ := spells
      rw [List.append_assoc]
      exact .add operates tier sum derives

namespace Pending

/-- An open sum whose last run is complete is a sum. -/
theorem Spells.derives {p : Pending} {tokens : List Token} {run : Expr} (spells : p.Spells tokens)
    (holds : p.phase = .holding run) : Derives .sum tokens (p.sumValue run) := by
  cases spells with
  | mk spellsSum spellsProduct spellsChain spellsSigns signed spellsRun =>
      obtain rfl := holds
      exact spellsSum.derives_sum (spellsProduct.derives_product
        (spellsChain.derives_chain spellsSigns signed spellsRun))

theorem Spells.operand {p next : Pending} {tokens primary : List Token} {expr : Expr}
    (spells : p.Spells tokens) (derives : Derives .primary primary expr)
    (step : p.operand? expr = some next) : next.Spells (tokens ++ primary) := by
  cases spells with
  | @mk _ _ _ _ phase _ _ _ _ _ spellsSum spellsProduct spellsChain spellsSigns signed spellsRun =>
      simp only [List.append_assoc]
      cases phase with
      | holding run => contradiction
      | awaiting =>
          obtain rfl := Option.some.inj step
          obtain rfl := spellsRun
          exact .mk spellsSum spellsProduct spellsChain spellsSigns signed (.run derives)
      | raising run =>
          obtain rfl := Option.some.inj step
          obtain ⟨left, caret, rfl, raises, run⟩ := spellsRun
          rw [List.append_assoc]
          exact .mk spellsSum spellsProduct spellsChain spellsSigns signed
            (.power raises run derives)

/-- A left side with nothing after it yet. -/
theorem spells_left {sum product : Option (Expr × Operator)} {sumTokens productTokens : List Token}
    (spellsSum : SpellsLeft .sum 3 sum sumTokens)
    (spellsProduct : SpellsLeft .product 2 product productTokens) :
    Spells { start with sum := sum, product := product } (sumTokens ++ productTokens) := by
  have spells : Spells ⟨sum, product, none, [], .awaiting⟩
      (sumTokens ++ (productTokens ++ ([] ++ ([] ++ [])))) :=
    .mk spellsSum spellsProduct rfl rfl (fun h => absurd rfl h) rfl
  simpa [start] using spells

theorem Spells.operator {p next : Pending} {tokens : List Token} {token : Token} {op : Operator}
    (spells : p.Spells tokens) (operates : token.kind = .operator op)
    (step : p.operator? op = some next) : next.Spells (tokens ++ [token]) := by
  cases phase : p.phase with
  | holding run =>
      have sum := spells.derives phase
      cases spells with
      | mk spellsSum spellsProduct spellsChain spellsSigns signed spellsRun =>
          obtain rfl := phase
          have product := spellsProduct.derives_product
            (spellsChain.derives_chain spellsSigns signed spellsRun)
          cases op with
          | pow =>
              obtain rfl := Option.some.inj step
              simp only [List.append_assoc]
              exact .mk spellsSum spellsProduct spellsChain spellsSigns signed
                ⟨_, token, rfl, operates, spellsRun⟩
          | mul | div =>
              -- the product so far becomes the left side, and the sum before it stays open
              obtain rfl := Option.some.inj step
              rw [List.append_assoc]
              exact spells_left spellsSum (.intro product operates)
          | add | sub =>
              obtain rfl := Option.some.inj step
              have left : Spells { start with sum := some (_, _) } ((_ ++ [token]) ++ []) :=
                spells_left (.intro sum operates) rfl
              simpa using left
  | awaiting =>
      cases spells with
      | mk spellsSum spellsProduct spellsChain spellsSigns signed spellsRun =>
          obtain rfl := phase
          obtain rfl := spellsRun
          simp only [operator?, Option.ite_none_right_eq_some, Option.some.injEq] at step
          obtain ⟨isSign, rfl⟩ := step
          simp only [List.append_assoc, List.nil_append]
          rw [← List.append_nil [token], ← List.append_assoc _ [token]]
          exact .mk spellsSum spellsProduct spellsChain
            ⟨isSign, _, token, rfl, operates, spellsSigns⟩ (by simp) rfl
  | raising run =>
      cases spells with
      | mk spellsSum spellsProduct spellsChain spellsSigns signed spellsRun =>
          obtain rfl := phase
          obtain ⟨left, caret, rfl, raises, spellsRun⟩ := spellsRun
          have chain := spellsChain.derives_chain spellsSigns signed spellsRun
          simp only [operator?, Option.ite_none_right_eq_some, Option.some.injEq] at step
          obtain ⟨isSign, rfl⟩ := step
          -- the run turns out to be complete: it and the `^` are the left side of a chain
          have spells : Spells ⟨_, _, some (_, .pow), [op], .awaiting⟩
              (_ ++ (_ ++ (_ ++ (_ ++ [])))) :=
            .mk spellsSum spellsProduct (.intro chain raises)
              ⟨isSign, [], token, rfl, operates, rfl⟩ (by simp) rfl
          simpa [chainValue] using spells

end Pending

/-- The tokens of complete arguments, each with the separator after it. -/
inductive SpellsArguments : List Expr → List Token → Prop
  | none : SpellsArguments [] []
  | next {arg : Expr} {args : List Expr} {tokens rest : List Token} {comma : Token}
      (derives : Derives .sum tokens arg) (separates : comma.kind = .separator)
      (spells : SpellsArguments args rest) :
      SpellsArguments (arg :: args) (tokens ++ comma :: rest)

theorem SpellsArguments.append {args : List Expr} {arg : Expr} {before tokens : List Token}
    {comma : Token} (spells : SpellsArguments args before) (derives : Derives .sum tokens arg)
    (separates : comma.kind = .separator) :
    SpellsArguments (args ++ [arg]) (before ++ (tokens ++ [comma])) := by
  induction spells with
  | none => exact .next derives separates .none
  | next first separates' _ ih =>
      rw [List.append_assoc, List.cons_append]
      exact .next first separates' ih

/-- The opener of a bracket, or of a call with its name and place. -/
def Opens (opener : Token) : Option (String × Span) → Prop
  | none => opener.kind = .bracketOpen
  | some (name, span) => opener.kind = .functionStart name ∧ opener.span = span

/-- A reading and the tokens read so far. -/
inductive Spelled : Reading → List Token → Prop
  | outermost {top : Pending} {tokens : List Token} (spells : top.Spells tokens) :
      Spelled ⟨[], top⟩ tokens
  | inside {outer top : Pending} {call : Option (String × Span)} {args : List Expr}
      {frames : List Frame} {before argTokens tokens : List Token} {opener : Token}
      (around : Spelled ⟨frames, outer⟩ before) (opens : Opens opener call)
      (arguments : SpellsArguments args argTokens) (plain : call = none → args = [])
      (spells : top.Spells tokens) :
      Spelled ⟨⟨outer, call, args⟩ :: frames, top⟩ (before ++ opener :: (argTokens ++ tokens))

namespace Spelled

/-- The open sum can be read on, whatever is around it. -/
theorem top {frames : List Frame} {p next : Pending} {tokens more : List Token}
    (spelled : Spelled ⟨frames, p⟩ tokens)
    (step : ∀ inner, p.Spells inner → next.Spells (inner ++ more)) :
    Spelled ⟨frames, next⟩ (tokens ++ more) := by
  cases spelled with
  | outermost spells => exact .outermost (step _ spells)
  | inside around opens arguments plain spells =>
      have spelled := inside around opens arguments plain (step _ spells)
      simpa using spelled

theorem operand {r next : Reading} {tokens primary : List Token} {expr : Expr}
    (spelled : Spelled r tokens) (derives : Derives .primary primary expr)
    (step : r.operand? expr = some next) : Spelled next (tokens ++ primary) := by
  obtain ⟨top, stepTop, rfl⟩ := Option.map_eq_some_iff.mp step
  exact spelled.top fun _ spells => spells.operand derives stepTop

/-- A bracket that is closed is a primary. -/
theorem derives_closed {outer inside : Pending} {call : Option (String × Span)} {args : List Expr}
    {opener closer : Token} {argTokens tokens : List Token} {value : Expr}
    (opens : Opens opener call) (closes : closer.kind = .bracketClose)
    (arguments : SpellsArguments args argTokens) (plain : call = none → args = [])
    (spells : inside.Spells tokens)
    (values : Frame.value? ⟨outer, call, args⟩ inside = some value) :
    Derives .primary (opener :: (argTokens ++ tokens ++ [closer])) value := by
  unfold Frame.value? at values
  split at values
  · rename_i run isPlain holds
    obtain rfl : call = none := isPlain
    obtain rfl := plain rfl
    obtain rfl := Option.some.inj values
    cases arguments
    exact .brackets opens closes (spells.derives holds)
  · rename_i name span run isCall holds
    obtain rfl : call = some (name, span) := isCall
    obtain ⟨opens, rfl⟩ := opens
    have last := spells.derives holds
    -- no call has more than three arguments, so the complete ones are two at most
    cases arguments with
    | none =>
        obtain rfl := Option.some.inj values
        exact .unary opens closes last
    | next first separates more =>
        cases more with
        | none =>
            obtain rfl := Option.some.inj values
            simp only [List.append_assoc, List.cons_append, List.nil_append]
            exact .binaryCall opens separates closes first last
        | next second separates' more =>
            cases more with
            | none =>
                obtain rfl := Option.some.inj values
                simp only [List.append_assoc, List.cons_append, List.nil_append]
                exact .tertiary opens separates separates' closes first second last
            | @next _ more =>
                cases more <;> contradiction
  · rename_i name span isCall awaits
    obtain rfl : call = some (name, span) := isCall
    obtain ⟨opens, rfl⟩ := opens
    simp only [Option.ite_none_right_eq_some] at values
    obtain ⟨⟨rfl, rfl⟩, values⟩ := values
    obtain rfl := Option.some.inj values
    obtain rfl := spells.eq_nil
    cases arguments
    exact .intrinsic opens closes
  · contradiction

theorem opener {r next : Reading} {tokens : List Token} {token : Token}
    {call : Option (String × Span)} (spelled : Spelled r tokens) (opens : Opens token call)
    (step : r.open? call = some next) : Spelled next (tokens ++ [token]) := by
  unfold Reading.open? at step
  split at step
  · contradiction
  · obtain rfl := Option.some.inj step
    exact .inside spelled opens .none (fun _ => rfl) Pending.spells_start

theorem separator {r next : Reading} {tokens : List Token} {token : Token}
    (spelled : Spelled r tokens) (separates : token.kind = .separator)
    (step : r.separate? = some next) : Spelled next (tokens ++ [token]) := by
  unfold Reading.separate? at step
  split at step
  · rename_i outer call args frames run isFrames holds
    obtain ⟨_, top⟩ := r
    obtain rfl : _ = _ := isFrames
    obtain rfl := Option.some.inj step
    cases spelled with
    | inside around opens arguments plain spells =>
        have spelled := inside around opens (arguments.append (spells.derives holds) separates)
          (by simp) Pending.spells_start
        simpa using spelled
  · contradiction

theorem closer {r next : Reading} {tokens : List Token} {token : Token}
    (spelled : Spelled r tokens) (closes : token.kind = .bracketClose)
    (step : r.close? = some next) : Spelled next (tokens ++ [token]) := by
  obtain ⟨frames, top⟩ := r
  cases spelled with
  | outermost spells => contradiction
  | inside around opens arguments plain spells =>
      obtain ⟨value, values, step⟩ := Option.bind_eq_some_iff.mp step
      have primary := derives_closed opens closes arguments plain spells values
      have spelled := around.operand primary step
      simpa using spelled

/-- Every token that is read keeps the invariant. -/
theorem next {r next : Reading} {tokens : List Token} {token : Token} (spelled : Spelled r tokens)
    (step : r.next? token = some next) : Spelled next (tokens ++ [token]) := by
  unfold Reading.next? at step
  split at step
  · rename_i expr isValue
    exact spelled.operand (.value isValue) step
  · rename_i op operates
    obtain ⟨top, stepTop, rfl⟩ := Option.map_eq_some_iff.mp step
    exact spelled.top fun _ spells => spells.operator operates stepTop
  · rename_i opens
    have opens : Opens token none := opens
    exact spelled.opener opens step
  · rename_i name opens
    have opens : Opens token (some (name, token.span)) := ⟨opens, rfl⟩
    exact spelled.opener opens step
  · rename_i separates
    exact spelled.separator separates step
  · rename_i closes
    exact spelled.closer closes step

end Spelled

theorem Spelled.derives {r : Reading} {before tokens : List Token} {expr : Expr}
    (spelled : Spelled r before) (read : r.read tokens = some expr) :
    Derives .sum (before ++ tokens) expr := by
  -- the tokens move one by one from those still to be read to those that the invariant spells
  induction tokens generalizing r before with
  | nil =>
      rw [List.append_nil]
      simp only [Reading.read, Reading.result?] at read
      split at read
      · rename_i run isOutermost holds
        obtain ⟨frames, top⟩ := r
        obtain rfl : frames = [] := isOutermost
        obtain rfl := Option.some.inj read
        cases spelled with
        | outermost spells => exact spells.derives holds
      · contradiction
  | cons token rest ih =>
      obtain ⟨next, step, read⟩ := Option.bind_eq_some_iff.mp read
      have derives := ih (spelled.next step) read
      rwa [List.append_assoc, List.singleton_append] at derives

/-- Reading from left to right accepts the phrases of the grammar, with their trees. -/
theorem derives_sum_iff_read {tokens : List Token} {expr : Expr} :
    Derives .sum tokens expr ↔ Reading.start.read tokens = some expr := by
  constructor
  · intro derives
    obtain ⟨q, run, holds, rfl, reads⟩ := derives.reads
    have read := reads [] []
    rw [List.append_nil] at read
    rw [Reading.start, read]
    simp [Reading.read, Reading.result?, holds]
  · intro read
    exact Spelled.derives (.outermost Pending.spells_start) read

/-- A phrase has one tree. -/
theorem Derives.unique {tokens : List Token} {expr expr' : Expr}
    (derives : Derives .sum tokens expr) (derives' : Derives .sum tokens expr') : expr = expr' := by
  rw [derives_sum_iff_read] at derives derives'
  exact Option.some.inj (derives.symm.trans derives')

end ImageFormula
