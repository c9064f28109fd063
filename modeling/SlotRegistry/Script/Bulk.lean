import SlotRegistry.SlotId
import SlotRegistry.Datum
/-!
# Bulk — one call on many ids

A bulk step makes a call on the ids `first`, `first + stride`, … up to `last`.
-/
namespace SlotRegistry

/-- A call, the ids on which it is made, and the value it stores if it stores one. -/
structure Bulk (κ : Type) where
  action : κ
  first : SlotId
  last : SlotId
  stride : Nat
  value : Datum

namespace Bulk

variable {κ : Type}

/-- How many ids there are; a stride of 0 counts as 1. -/
def count (b : Bulk κ) : Nat :=
  if b.first.toNat ≤ b.last.toNat then (b.last.toNat - b.first.toNat) / max b.stride 1 + 1 else 0

/-- The `i`-th id. -/
def id (b : Bulk κ) (i : Nat) : SlotId := UInt16.ofNat (b.first.toNat + i * max b.stride 1)

def ids (b : Bulk κ) : List SlotId := (List.range b.count).map b.id

end Bulk

end SlotRegistry
