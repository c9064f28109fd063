import SlotRegistry.Registry.Basic
/-!
# Scan — reading a registry one entry at a time

A scan holds the registry it reads and the ids still ahead; each step reads the next id's slot in the registry.
-/
namespace SlotRegistry
namespace Registry

/-- A registry being read, and the ids not yet reached. -/
structure Scan (α : Type) where
  registry : Registry α
  ahead : List SlotId

variable {α : Type}

/-- A scan of all entries, in the order of their ids; nobody should rely on the order. -/
def scan (r : Registry α) : Scan α := ⟨r, r.ids⟩

namespace Scan

/-- Between which bounds the number of entries still ahead lies, where there may be no upper one: a scan knows both,
and they are the same. -/
def sizeHint (s : Scan α) : Nat × Option Nat := (s.ahead.length, some s.ahead.length)

/-- The next entry, with its value or none when it is reserved, and the scan after it. -/
def next? (s : Scan α) : Option ((SlotId × Option α) × Scan α) :=
  match s.ahead with
  | [] => none
  | id :: ahead => some ((id, s.registry.get? id), { s with ahead := ahead })

/-- The first `n` entries ahead, and the scan after them. -/
def advance : Nat → Scan α → List (SlotId × Option α) × Scan α
  | 0, s => ([], s)
  | n + 1, s =>
    match s.next? with
    | none => ([], s)
    | some (entry, rest) =>
      let (entries, last) := advance n rest
      (entry :: entries, last)

end Scan
end Registry

end SlotRegistry
