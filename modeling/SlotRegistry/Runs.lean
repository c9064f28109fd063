import SlotRegistry.Registry.Basic
/-!
# Runs — ids in the order given, as stretches of consecutive ids

A stretch holds ids that each follow the one before; 0 does not follow 65535.  Stretches are kept last first while
they grow.  Spans do the same for entries: the neighbours in a span also have equal slots.
-/
namespace SlotRegistry

/-- Stretches of consecutive ids, the last stretch first. -/
structure Runs where
  stretches : List (SlotId × SlotId)
  deriving DecidableEq, Repr

namespace Runs

def empty : Runs := ⟨[]⟩

/-- One more id: it extends the last stretch if it is the successor of its end. -/
def push (r : Runs) (id : SlotId) : Runs :=
  match r.stretches with
  | [] => ⟨[(id, id)]⟩
  | (first, last) :: rest =>
    if last.toNat + 1 = id.toNat then ⟨(first, id) :: rest⟩ else ⟨(id, id) :: (first, last) :: rest⟩

def ofList (ids : List SlotId) : Runs := ids.foldl push empty

/-- The stretches in the order of their ids. -/
def toList (r : Runs) : List (SlotId × SlotId) := r.stretches.reverse

end Runs

/-- A stretch of consecutive ids whose slots are equal. -/
structure Span (α : Type) where
  first : SlotId
  last : SlotId
  slot : Slot α

namespace Span

variable {α : Type} [DecidableEq α]

/-- One more entry, on spans kept last first. -/
def push (spans : List (Span α)) (entry : SlotId × Slot α) : List (Span α) :=
  match spans with
  | [] => [⟨entry.1, entry.1, entry.2⟩]
  | span :: rest =>
    if span.last.toNat + 1 = entry.1.toNat ∧ span.slot = entry.2 then { span with last := entry.1 } :: rest
    else ⟨entry.1, entry.1, entry.2⟩ :: span :: rest

/-- The spans of entries given in ascending order. -/
def ofEntries (entries : List (SlotId × Slot α)) : List (Span α) := (entries.foldl push []).reverse

end Span

def Registry.spans {α : Type} [DecidableEq α] (r : Registry α) : List (Span α) := Span.ofEntries r.entries

end SlotRegistry
