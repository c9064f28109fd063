import SlotRegistry.Journal
/-!
# World — all shared state

The cells, the handles that belong to them, the tickets kept on the shelf, and the journal with the last entry first.
-/
namespace SlotRegistry

structure World (α : Type) where
  cells : List (Cell α)
  handles : List (Handle × CellId)
  /-- Kept tickets by number; a number stays in use when its ticket is given up. -/
  shelf : Array (Option Ticket)
  verbosity : Verbosity
  journal : List (Entry α)
  /-- The values that were given back to callers and have not been destroyed since, the last one first. -/
  given : List (Stored α)
  /-- How many values have been handed over. -/
  handed : Nat
  /-- How many handles have had a number of their own. -/
  held : Nat
  /-- How many threads have been started. -/
  threads : Nat

namespace World

variable {α : Type}

/-- Nothing is shared yet, and one thread runs. -/
def empty (v : Verbosity) : World α := ⟨[], [], #[], v, [], [], 0, 0, 1⟩

def log (w : World α) (e : Entry α) : World α := { w with journal := e :: w.journal }

/-- Tells the listener of an event, if it is to be told. -/
def emit (w : World α) (e : Event) (n : CellId) (t : Thread) (lock : Lock) : World α :=
  if w.verbosity.shows e then w.log (.event e n t lock) else w

def put (w : World α) (n : CellId) (cell : Cell α) : World α := { w with cells := w.cells.set n cell }

/-- The number of the cell a handle belongs to. -/
def find? (w : World α) (h : Handle) : Option CellId := w.handles.lookup h

/-- The cell a handle belongs to, with its number. -/
def cellOf? (w : World α) (h : Handle) : Option (CellId × Cell α) :=
  (w.find? h).bind (fun n => (w.cells[n]?).map (fun cell => (n, cell)))

/-- The handle no longer belongs to any cell. -/
def unbind (w : World α) (h : Handle) : World α := { w with handles := w.handles.filter (fun b => b.1 ≠ h) }

/-- The handle belongs to a cell, whatever it belonged to before. -/
def bind (w : World α) (h : Handle) (n : CellId) : World α := { w with handles := (h, n) :: (w.unbind h).handles }

/-- A fresh cell, and its number. -/
def create (w : World α) : CellId × World α :=
  let n := w.cells.length
  (n, { w with cells := w.cells ++ [Cell.fresh] }.log (.created n))

/-- A value is handed over and gets its number. -/
def handOver (w : World α) (v : Value α (Program α)) (n : CellId) (id : SlotId) : Stored α × World α :=
  (⟨w.handed, v⟩, { w with handed := w.handed + 1 }.log (.handed w.handed n id))

/-- A value is given back to a caller. -/
def giveBack (w : World α) (s : Stored α) : World α := { w with given := s :: w.given }.log (.returned s.serial)

/-- The value of a number, if it was given back and has not been destroyed since. -/
def given? (w : World α) (serial : Nat) : Option (Stored α) := w.given.find? (fun s => s.serial = serial)

/-- The value of a number is no longer with a caller. -/
def forget (w : World α) (serial : Nat) : World α := { w with given := w.given.eraseP (fun s => s.serial = serial) }

/-- A ticket is kept under the next number. -/
def shelve (w : World α) (ticket : Ticket) : Nat × World α :=
  let number := w.shelf.size
  (number, { w with shelf := w.shelf.push (some ticket) })

/-- The ticket kept under a number, none if there never was one or it has been given up. -/
def shelved? (w : World α) (number : Nat) : Option Ticket := w.shelf[number]?.join

def unshelve (w : World α) (number : Nat) : World α := { w with shelf := w.shelf.setIfInBounds number none }

end World

end SlotRegistry
