/-!
# Lock — many readers or one writer

A lock knows who holds it.  A reader is let in while no writer holds the lock, a writer while nobody does; whoever is
not let in would have to wait.
-/
namespace SlotRegistry

/-- Threads are numbered in the order in which they start; the first is number 0. -/
abbrev Thread := Nat

inductive Lock
  | shared (readers : List Thread)
  | exclusive (writer : Thread)
  deriving DecidableEq, Repr

namespace Lock

def free : Lock := shared []

/-- The lock with one more reader, none when a writer holds it. -/
def read? (t : Thread) : Lock → Option Lock
  | shared readers => some (shared (t :: readers))
  | exclusive _ => none

/-- The lock held for writing, none when anyone holds it. -/
def write? (t : Thread) : Lock → Option Lock
  | shared [] => some (exclusive t)
  | shared (_ :: _) => none
  | exclusive _ => none

/-- One reading hold of a thread ends. -/
def endRead (t : Thread) : Lock → Lock
  | shared readers => shared (readers.erase t)
  | exclusive w => exclusive w

/-- The writing hold ends. -/
def endWrite : Lock → Lock
  | shared readers => shared readers
  | exclusive _ => free

/-- Whether a reader would be let in. -/
def readable : Lock → Bool
  | shared _ => true
  | exclusive _ => false

/-- Whether a thread holds the lock, for reading or for writing. -/
def heldBy (t : Thread) : Lock → Prop
  | shared readers => t ∈ readers
  | exclusive w => t = w

instance (t : Thread) : (l : Lock) → Decidable (l.heldBy t)
  | shared readers => inferInstanceAs (Decidable (t ∈ readers))
  | exclusive w => inferInstanceAs (Decidable (t = w))

@[simp] theorem endRead_cons (t : Thread) (readers : List Thread) :
    (shared (t :: readers)).endRead t = shared readers := by simp [endRead]

end Lock

end SlotRegistry
