import Std.Data.ExtTreeMap
import SlotRegistry.SlotId
import SlotRegistry.Slot
import SlotRegistry.Refusal
/-!
# Registry — slots by id, and the cursor of the last reservation

A registry is a finite map from ids to slots with a cursor.  Reservation looks for the first absent id after the
cursor, round the ring, and moves the cursor there; nothing else moves it.  A request that is refused returns no
registry: the caller keeps the one it had.
-/
namespace SlotRegistry

/-- Slots by id, and the id handed out by the last reservation. -/
structure Registry (α : Type) where
  slots : Std.ExtTreeMap SlotId (Slot α)
  cursor : SlotId

namespace Registry

variable {α : Type}

/-- No id is present and the cursor stands at 0. -/
def empty : Registry α := ⟨∅, 0⟩

instance : Inhabited (Registry α) := ⟨empty⟩

/-- The slot of an id, none when the id is absent. -/
def slot? (r : Registry α) (id : SlotId) : Option (Slot α) := r.slots[id]?

/-- The value bound to an id; absent and reserved ids have none. -/
def get? (r : Registry α) (id : SlotId) : Option α := (r.slot? id).bind Slot.value?

def contains (r : Registry α) (id : SlotId) : Bool := r.slots.contains id

def size (r : Registry α) : Nat := r.slots.size

def isEmpty (r : Registry α) : Bool := r.slots.isEmpty

/-- The present ids, ascending. -/
def ids (r : Registry α) : List SlotId := r.slots.keys

/-- The present ids with their slots, ascending. -/
def entries (r : Registry α) : List (SlotId × Slot α) := r.slots.toList

/-- The first absent id among the `n` ids that follow `id` on the ring. -/
def firstAbsentAfter (r : Registry α) (id : SlotId) : Nat → Option SlotId
  | 0 => none
  | n + 1 => if r.contains (id + 1) then r.firstAbsentAfter (id + 1) n else some (id + 1)

/-- Claims the first absent id after the cursor, round the ring.  The cursor's own id is no candidate. -/
def reserve (r : Registry α) : Except Refusal (SlotId × Registry α) :=
  match r.firstAbsentAfter r.cursor (SlotId.count - 1) with
  | none => .error .noneLeft
  | some id => .ok (id, ⟨r.slots.insert id .reserved, id⟩)

/-- Binds a value to an absent id. -/
def insert (r : Registry α) (id : SlotId) (v : α) : Except Refusal (Registry α) :=
  if r.contains id then .error (.taken id) else .ok { r with slots := r.slots.insert id (.occupied v) }

/-- Binds a value to a reserved id. -/
def fill (r : Registry α) (id : SlotId) (v : α) : Except Refusal (Registry α) :=
  match r.slot? id with
  | none => .error (.unreserved id)
  | some (.occupied _) => .error (.taken id)
  | some .reserved => .ok { r with slots := r.slots.insert id (.occupied v) }

/-- Takes out the value bound to an id.  A reserved id stays reserved. -/
def take (r : Registry α) (id : SlotId) : Except Refusal (α × Registry α) :=
  match r.slot? id with
  | none => .error (.absent id)
  | some .reserved => .error (.unset id)
  | some (.occupied v) => .ok (v, { r with slots := r.slots.erase id })

/-- Makes an id absent, whatever it held. -/
def remove (r : Registry α) (id : SlotId) : Registry α := { r with slots := r.slots.erase id }

/-- The registry with every value rewritten. -/
def map {β : Type} (f : α → β) (r : Registry α) : Registry β := ⟨r.slots.map (fun _ s => s.map f), r.cursor⟩

def outline (write : α → String) (r : Registry α) : Outline :=
  .record "SlotTable" [
    ("slots", .mapping (r.entries.map (fun e => (toString e.1.toNat, e.2.outline write)))),
    ("cursor", .leaf (toString r.cursor.toNat))]

end Registry

end SlotRegistry
