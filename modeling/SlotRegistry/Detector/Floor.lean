import SlotRegistry.Detector.Roster
/-!
# Floor — several detectors and the guards that threads hold on them

Each detector of a floor keeps a roster.  A thread that enters a detector holds a guard on it until it gives the guard
up.
-/
namespace SlotRegistry

/-- The rosters of some detectors, and who holds a guard on which. -/
structure Floor where
  detectors : List Roster
  guards : List (Thread × Nat)
  deriving DecidableEq, Repr

namespace Floor

/-- `n` detectors with nobody inside. -/
def fresh (n : Nat) : Floor := ⟨List.replicate n Roster.empty, []⟩

/-- What a thread does with one of the detectors. -/
inductive Move
  | enter
  | exit
  deriving DecidableEq, Repr

/-- What came of it. -/
inductive Result
  | done
  | notHeld
  | refused
  deriving DecidableEq, Repr

/-- A thread enters a detector and keeps the guard.  A refused entry changes nothing; a detector that is not there
refuses. -/
def enter (f : Floor) (t : Thread) (n : Nat) : Result × Floor :=
  match f.detectors[n]? with
  | none => (.refused, f)
  | some r =>
    match r.enter? t with
    | none => (.refused, f)
    | some r => (.done, ⟨f.detectors.set n r, (t, n) :: f.guards⟩)

/-- A thread gives up the guard it holds on a detector, if it holds one. -/
def exit (f : Floor) (t : Thread) (n : Nat) : Result × Floor :=
  if (t, n) ∈ f.guards then (.done, ⟨f.detectors.modify n (·.leave t), f.guards.erase (t, n)⟩) else (.notHeld, f)

def move (f : Floor) (t : Thread) (n : Nat) : Move → Result × Floor
  | .enter => f.enter t n
  | .exit => f.exit t n

end Floor

end SlotRegistry
