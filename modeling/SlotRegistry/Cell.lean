import SlotRegistry.Detector
import SlotRegistry.Program
/-!
# Cell — a shared registry

A cell is a registry with its lock, its detector and the number of its owners; a cell without owners is dead.
-/
namespace SlotRegistry

/-- A value that has been handed over, numbered in the order of handing over. -/
structure Stored (α : Type) where
  serial : Nat
  value : Value α (Program α)

/-- A shared registry with its lock, its detector and the number of its owners. -/
structure Cell (α : Type) where
  registry : Registry (Stored α)
  lock : Lock
  detector : Detector
  owners : Nat

namespace Cell

variable {α : Type}

/-- A cell with an empty registry and one owner. -/
def fresh : Cell α := ⟨.empty, .free, .empty, 1⟩

def enter? (cell : Cell α) (t : Thread) : Option (Cell α) :=
  (cell.detector.enter? t).map (fun d => { cell with detector := d })

def leave (cell : Cell α) (t : Thread) : Cell α := { cell with detector := cell.detector.leave t }

def read? (cell : Cell α) (t : Thread) : Option (Cell α) := (cell.lock.read? t).map (fun l => { cell with lock := l })

def endRead (cell : Cell α) (t : Thread) : Cell α := { cell with lock := cell.lock.endRead t }

def write? (cell : Cell α) (t : Thread) : Option (Cell α) := (cell.lock.write? t).map (fun l => { cell with lock := l })

def endWrite (cell : Cell α) : Cell α := { cell with lock := cell.lock.endWrite }

def withRegistry (cell : Cell α) (r : Registry (Stored α)) : Cell α := { cell with registry := r }

def addOwner (cell : Cell α) : Cell α := { cell with owners := cell.owners + 1 }

/-- The data bound to an id. -/
def payload? (cell : Cell α) (id : SlotId) : Option α := (cell.registry.get? id).map (·.value.payload)

/-- What a look shows: size and cursor, none while a writer holds the lock. -/
def glance (cell : Cell α) : Option Glance :=
  if cell.lock.readable then some ⟨cell.registry.size, cell.registry.cursor⟩ else none

end Cell

end SlotRegistry
