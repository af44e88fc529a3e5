/-! Which image slots a formula refers to: sets of slots, and what is recorded of them. -/

namespace ImageFormula

/-- A set of slots, in increasing order. -/
abbrev SlotSet := List Nat

namespace SlotSet

/-- The set with one slot more. -/
def insert (slot : Nat) : SlotSet → SlotSet
  | [] => [slot]
  | first :: more =>
    if slot < first then slot :: first :: more
    else if slot = first then first :: more
    else first :: insert slot more

/-- The set of the slots in a list. -/
def ofList (slots : List Nat) : SlotSet := slots.foldl (fun set slot => insert slot set) []

end SlotSet

/-- The slots seen so far, in the order of the text. -/
structure Usage where
  first : Option Nat
  least : Option Nat
  greatest : Option Nat
  slots : SlotSet
  deriving DecidableEq, Repr

namespace Usage

def empty : Usage := ⟨none, none, none, []⟩

/-- The usage after one more reference to `slot`. -/
def record (usage : Usage) (slot : Nat) : Usage :=
  { first := some (usage.first.getD slot)
    least := some (min slot (usage.least.getD slot))
    greatest := some (max slot (usage.greatest.getD slot))
    slots := usage.slots.insert slot }

def isEmpty (usage : Usage) : Bool := usage.slots.isEmpty

/-- Whether every slot referred to exists when `count` images are loaded. -/
def isValidFor (usage : Usage) (count : Nat) : Bool :=
  match usage.greatest with
  | some slot => decide (slot < count)
  | none => true

end Usage

end ImageFormula
