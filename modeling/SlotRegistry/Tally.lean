import SlotRegistry.Runs
/-!
# Tally — ids by the outcome they had

Outcomes go by name and stand in the order in which they first came up.
-/
namespace SlotRegistry

structure Tally where
  groups : List (String × Runs)
  deriving DecidableEq, Repr

namespace Tally

def empty : Tally := ⟨[]⟩

def addTo (name : String) (id : SlotId) : List (String × Runs) → List (String × Runs)
  | [] => [(name, Runs.empty.push id)]
  | (n, ids) :: rest => if n = name then (n, ids.push id) :: rest else (n, ids) :: addTo name id rest

/-- One more id under the name of its outcome. -/
def add (t : Tally) (name : String) (id : SlotId) : Tally := ⟨addTo name id t.groups⟩

end Tally

end SlotRegistry
