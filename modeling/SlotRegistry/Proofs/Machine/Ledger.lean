import Mathlib.Logic.Relation
import SlotRegistry.Proofs.Machine.Entry
import SlotRegistry.Proofs.Machine.Stakes
/-!
# Ledger — what one step does to cells, handles and stack

The ledger of a configuration is what its accounts are kept of: the cells, the handles, the stack with the running
thread, and the cell that is being cleared.  A move changes one thing in it, and every step of the machine is made of
moves (`step_moves`), so an invariant of the accounts is checked move by move.
-/
namespace SlotRegistry

variable {α : Type}

structure Ledger (α : Type) where
  cells : List (Cell α)
  handles : List (Handle × CellId)
  thread : Thread
  /-- How many threads have been started. -/
  threads : Nat
  stack : List (Frame α)
  /-- The cell that is being cleared. -/
  torn : Option CellId

/-- The cell that is being cleared next. -/
def Control.torn : Control α → Option CellId
  | .tearing n _ _ _ => some n
  | _ => none

def Config.ledger (c : Config α) : Ledger α :=
  ⟨c.world.cells, c.world.handles, c.thread, c.world.threads, c.stack, c.control.torn⟩

namespace Ledger

/-- A handle belongs to the cell, or it has owners. -/
def InUse (L : Ledger α) (n : CellId) (cell : Cell α) : Prop := (∃ h, (h, n) ∈ L.handles) ∨ cell.owners ≠ 0

/-- One change of a ledger.  An owner that is about to be given to a handle, or to be let go, stands on the stack as a
call that owns the cell. -/
inductive Move : Ledger α → Ledger α → Prop
  | still (L : Ledger α) : Move L { L with torn := none }
  /-- A registry is written under a lock that was free before and is free again. -/
  | update {L : Ledger α} {n : CellId} {cell : Cell α} (r : Registry (Stored α)) (found : L.cells[n]? = some cell)
      (free : cell.lock = .free) : Move L { L with cells := L.cells.set n (cell.withRegistry r), torn := none }
  | beginReading {L : Ledger α} {n : CellId} {cell : Cell α} {readers : List Thread} {s : Scope α}
      (next : Outcome α → Program α) (found : L.cells[n]? = some cell) (outside : L.thread ∉ cell.detector.inside)
      (lock : cell.lock = .shared readers) (used : L.InUse n cell) (stake : s.stake = some (n, .reading)) :
      Move L { L with
        cells := L.cells.set n (cell.heldForReading L.thread readers).addOwner
        stack := .call s next :: L.stack
        torn := none }
  | beginWriting {L : Ledger α} {n : CellId} {cell : Cell α} {s : Scope α} (next : Outcome α → Program α)
      (found : L.cells[n]? = some cell) (outside : L.thread ∉ cell.detector.inside) (free : cell.lock = .free)
      (used : L.InUse n cell) (stake : s.stake = some (n, .writing)) :
      Move L { L with
        cells := L.cells.set n (cell.heldForWriting L.thread).addOwner
        stack := .call s next :: L.stack
        torn := none }
  /-- A call is turned away because its thread is inside; it owns the cell while it breaks off. -/
  | bounce {L : Ledger α} {n : CellId} {cell : Cell α} (next : Outcome α → Program α) (found : L.cells[n]? = some cell)
      (inside : L.thread ∈ cell.detector.inside) (used : L.InUse n cell) :
      Move L { L with
        cells := L.cells.set n cell.addOwner
        stack := .call (.bouncing n) next :: L.stack
        torn := none }
  | own {L : Ledger α} {n : CellId} {cell : Cell α} (next : Outcome α → Program α) (found : L.cells[n]? = some cell)
      (used : L.InUse n cell) :
      Move L { L with
        cells := L.cells.set n cell.addOwner
        stack := .call (.discarding n) next :: L.stack
        torn := none }
  /-- A call that reads goes on to other user code. -/
  | revisit {L : Ledger α} {n : CellId} {s s' : Scope α} {next : Outcome α → Program α} {rest : List (Frame α)}
      (next' : Outcome α → Program α) (top : L.stack = .call s next :: rest) (stake : s.stake = some (n, .reading))
      (stake' : s'.stake = some (n, .reading)) :
      Move L { L with stack := .call s' next' :: rest, torn := none }
  | endReading {L : Ledger α} {n : CellId} {cell : Cell α} {s : Scope α} {next : Outcome α → Program α}
      {rest : List (Frame α)} (next' : Outcome α → Program α) (top : L.stack = .call s next :: rest)
      (stake : s.stake = some (n, .reading)) (found : L.cells[n]? = some cell) :
      Move L { L with
        cells := L.cells.set n ((cell.endRead L.thread).leave L.thread)
        stack := .call (.discarding n) next' :: rest
        torn := none }
  | endWriting {L : Ledger α} {n : CellId} {cell : Cell α} {s : Scope α} {next : Outcome α → Program α}
      {rest : List (Frame α)} (next' : Outcome α → Program α) (top : L.stack = .call s next :: rest)
      (stake : s.stake = some (n, .writing)) (found : L.cells[n]? = some cell) :
      Move L { L with
        cells := L.cells.set n (cell.endWrite.leave L.thread)
        stack := .call (.discarding n) next' :: rest
        torn := none }
  | letGo {L : Ledger α} {n : CellId} {cell : Cell α} {s : Scope α} {next : Outcome α → Program α}
      {rest : List (Frame α)} (top : L.stack = .call s next :: rest) (stake : s.stake = some (n, .owning))
      (found : L.cells[n]? = some cell) (others : cell.owners ≠ 1) :
      Move L { L with
        cells := L.cells.set n { cell with owners := cell.owners - 1 }
        stack := rest
        torn := none }
  /-- The last owner is let go. -/
  | close {L : Ledger α} {n : CellId} {cell : Cell α} {s : Scope α} {next : Outcome α → Program α}
      {rest : List (Frame α)} (top : L.stack = .call s next :: rest) (stake : s.stake = some (n, .owning))
      (found : L.cells[n]? = some cell) (last : cell.owners = 1) :
      Move L { L with
        cells := L.cells.set n { cell with owners := 0 }
        stack := rest
        torn := some n }
  /-- An owner is never let go. -/
  | forget {L : Ledger α} {n : CellId} {s : Scope α} {next : Outcome α → Program α} {rest : List (Frame α)}
      (top : L.stack = .call s next :: rest) (stake : s.stake = some (n, .owning)) :
      Move L { L with stack := rest, torn := none }
  /-- A call is over whose cell is not there. -/
  | lost {L : Ledger α} {n : CellId} {k : Stake} {s : Scope α} {next : Outcome α → Program α} {rest : List (Frame α)}
      (top : L.stack = .call s next :: rest) (stake : s.stake = some (n, k)) (missing : L.cells[n]? = none) :
      Move L { L with stack := rest, torn := none }
  | dispose {L : Ledger α} (next : Outcome α → Program α) :
      Move L { L with stack := .call .disposing next :: L.stack, torn := none }
  /-- A call is over that holds nothing of any cell. -/
  | pass {L : Ledger α} {s : Scope α} {next : Outcome α → Program α} {rest : List (Frame α)}
      (top : L.stack = .call s next :: rest) (stake : s.stake = none) :
      Move L { L with stack := rest, torn := none }
  | spawn {L : Ledger α} (goOn : Verdict → Option (List (Answer α)) → Program α) :
      Move L
        { L with thread := L.threads, threads := L.threads + 1, stack := .join L.thread goOn :: L.stack, torn := none }
  | join {L : Ledger α} {u : Thread} {goOn : Verdict → Option (List (Answer α)) → Program α} {rest : List (Frame α)}
      (top : L.stack = .join u goOn :: rest) : Move L { L with thread := u, stack := rest, torn := none }
  | create (L : Ledger α) (next : Outcome α → Program α) :
      Move L { L with
        cells := L.cells ++ [Cell.fresh]
        stack := .call (.discarding L.cells.length) next :: L.stack
        torn := none }
  /-- A handle gets the owner on the stack; the cell it belonged to is still owned in its place. -/
  | bind {L : Ledger α} {n : CellId} {s : Scope α} {next : Outcome α → Program α} {rest : List (Frame α)} (h : Handle)
      (top : L.stack = .call s next :: rest) (stake : s.stake = some (n, .owning)) :
      Move L { L with
        handles := (h, n) :: L.handles.filter (fun b => b.1 ≠ h)
        stack := match L.handles.lookup h with
          | none => rest
          | some m => .call (.discarding m) next :: rest
        torn := none }
  /-- A handle is unbound; its owner is still to be let go. -/
  | unbind {L : Ledger α} {h : Handle} {n : CellId} (next : Outcome α → Program α) (bound : L.handles.lookup h = some n) :
      Move L { L with
        handles := L.handles.filter (fun b => b.1 ≠ h)
        stack := .call (.discarding n) next :: L.stack
        torn := none }
  /-- An id of the cell being cleared is removed. -/
  | tear {L : Ledger α} {n : CellId} {cell : Cell α} (r : Registry (Stored α)) (torn : L.torn = some n)
      (found : L.cells[n]? = some cell) : Move L { L with cells := L.cells.set n (cell.withRegistry r) }
  | beginTearing {L : Ledger α} {n : CellId} (ahead : List SlotId) (x : Outcome α) (next : Outcome α → Program α)
      (torn : L.torn = some n) : Move L { L with stack := .call (.tearing n ahead x) next :: L.stack, torn := none }
  | endTearing {L : Ledger α} {n : CellId} {ahead : List SlotId} {x : Outcome α} {next : Outcome α → Program α}
      {rest : List (Frame α)} (top : L.stack = .call (.tearing n ahead x) next :: rest) :
      Move L { L with stack := rest, torn := some n }

/-- Any number of moves. -/
abbrev Moves : Ledger α → Ledger α → Prop := Relation.ReflTransGen Move

end Ledger

end SlotRegistry
