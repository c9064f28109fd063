import SlotRegistry.Lock
/-!
# Detector — which threads are inside

A detector lists the threads that are inside a guarded section.  A thread that is inside already may not enter again.
-/
namespace SlotRegistry

structure Detector where
  inside : List Thread
  deriving DecidableEq, Repr

namespace Detector

def empty : Detector := ⟨[]⟩

/-- The detector with a thread inside, none when it is inside already. -/
def enter? (d : Detector) (t : Thread) : Option Detector :=
  if t ∈ d.inside then none else some ⟨t :: d.inside⟩

/-- A thread leaves. -/
def leave (d : Detector) (t : Thread) : Detector := ⟨d.inside.erase t⟩

@[simp] theorem leave_cons (t : Thread) (inside : List Thread) : leave ⟨t :: inside⟩ t = ⟨inside⟩ := by
  simp [leave]

end Detector

/-- What a refused entry is reported with. -/
def reentryMessage : String := "reentrancy detected: nested entry into IdManager from the same thread"

end SlotRegistry
