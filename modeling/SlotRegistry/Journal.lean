import SlotRegistry.Cell
/-!
# Journal — what happened, entry by entry

Events are the lines a listener is shown; each is kept with the thread that told it and with the lock of its cell at
the moment it was told.  The other entries follow cells and values from their beginning to their end.
-/
namespace SlotRegistry

/-- What a listener may be told about a registry. -/
inductive Event
  | reserved (id : SlotId)
  | popped (id : SlotId)
  | added (id : SlotId)
  | set (id : SlotId)
  | released (id : SlotId) (removed : Bool)
  | exhausted (cursor : SlotId)
  deriving DecidableEq, Repr

/-- How much a listener is told. -/
inductive Verbosity
  | quiet
  | debug
  | trace
  deriving DecidableEq, Repr

def Verbosity.shows : Verbosity → Event → Bool
  | quiet, _ => false
  | debug, .exhausted _ => true
  | debug, _ => false
  | trace, _ => true

inductive Entry (α : Type)
  | created (cell : CellId)
  /-- The cell lost its last owner. -/
  | closed (cell : CellId)
  /-- A value was handed over, to be bound to an id of a cell. -/
  | handed (serial : Nat) (cell : CellId) (id : SlotId)
  /-- A value was given back to a caller. -/
  | returned (serial : Nat)
  | destroyed (serial : Nat)
  | event (e : Event) (cell : CellId) (thread : Thread) (lock : Lock)
  | note (n : Note α) (thread : Thread)

end SlotRegistry
