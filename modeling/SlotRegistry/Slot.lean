import SlotRegistry.Outline
/-!
# Slot — what is kept under a present id

An id that is not in a registry is absent.  A present id is reserved, when it has been claimed and no value is bound
to it yet, or occupied by a value.
-/
namespace SlotRegistry

inductive Slot (α : Type)
  | reserved
  | occupied (value : α)
  deriving DecidableEq, Repr

namespace Slot

variable {α : Type}

def value? : Slot α → Option α
  | reserved => none
  | occupied v => some v

def isReserved : Slot α → Bool
  | reserved => true
  | occupied _ => false

def map {β : Type} (f : α → β) : Slot α → Slot β
  | reserved => reserved
  | occupied v => occupied (f v)

/-- The slot that `value?` shows: a value, or none for a reserved slot. -/
def ofValue? : Option α → Slot α
  | none => reserved
  | some v => occupied v

@[simp] theorem ofValue?_value? (s : Slot α) : ofValue? s.value? = s := by cases s <;> rfl

@[simp] theorem value?_ofValue? (o : Option α) : (ofValue? o).value? = o := by cases o <;> rfl

def outline (write : α → String) : Slot α → Outline
  | reserved => .leaf "Reserved"
  | occupied v => .tuple "Occupied" [.leaf (write v)]

end Slot

end SlotRegistry
