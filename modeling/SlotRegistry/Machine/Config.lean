import SlotRegistry.World
/-!
# Config — a moment in the running of user code

A configuration is the world, the running thread, what it does next, and the stack of calls whose user code has not
come to its end.  A call registers its thread with the detector of its cell, takes the cell's lock, and gives both
back before it returns or breaks off; the scope of a waiting call says what it still holds.
-/
namespace SlotRegistry

/-- The place in a call at which user code runs.  Each call on a cell, but one that clears it, owns it until it is
over. -/
inductive Scope (α : Type)
  /-- A walk runs its visitor on an entry; the thread is registered and the lock held for reading. -/
  | walking (cell : CellId) (visit : Array (Visit α) → SlotId → Option α → Program α) (visits : Array (Visit α))
      (id : SlotId) (value : Option α) (ahead : List SlotId)
  /-- A value is copied to be returned; the thread is registered and the lock held for reading. -/
  | copying (cell : CellId) (payload : α)
  /-- A value that was refused is destroyed; the thread is registered and the lock held for writing. -/
  | rejecting (cell : CellId) (why : Refusal)
  /-- A value is destroyed while the call that was to store it breaks off, its thread having been inside already. -/
  | bouncing (cell : CellId)
  /-- A value that a release removed is destroyed; detector and lock have been left. -/
  | discarding (cell : CellId)
  /-- A value of a cell that lost its last owner is destroyed; what the call comes to is known. -/
  | tearing (cell : CellId) (ahead : List SlotId) (outcome : Outcome α)
  /-- A value that was given back is destroyed; no cell takes part. -/
  | disposing

/-- What waits for user code to end: a call, or a thread that has started another. -/
inductive Frame (α : Type)
  | call (scope : Scope α) (next : Outcome α → Program α)
  | join (thread : Thread) (next : Verdict → Option (List (Answer α)) → Program α)

/-- What the running thread does next. -/
inductive Control (α : Type)
  | running (p : Program α)
  /-- A call is over, and what it came to goes to the program that made it. -/
  | replying (x : Outcome α) (next : Outcome α → Program α)
  /-- What is left in a cell that lost its last owner is cleared before a call returns. -/
  | tearing (cell : CellId) (ahead : List SlotId) (outcome : Outcome α) (next : Outcome α → Program α)
  /-- The thread waits for a lock that is never given up. -/
  | blocked
  /-- User code raised a message while another was on its way. -/
  | aborted

structure Config (α : Type) where
  world : World α
  thread : Thread
  control : Control α
  stack : List (Frame α)

namespace Config

variable {α : Type}

/-- A program about to run on the first thread, with no call around it. -/
def initial (w : World α) (p : Program α) : Config α := ⟨w, 0, .running p, []⟩

/-- A call is over. -/
def reply (c : Config α) (x : Outcome α) (next : Outcome α → Program α) : Config α :=
  { c with control := .replying x next }

def block (c : Config α) : Config α := { c with control := .blocked }

def abort (c : Config α) : Config α := { c with control := .aborted }

/-- User code runs inside a call. -/
def run (c : Config α) (p : Program α) (scope : Scope α) (next : Outcome α → Program α) : Config α :=
  { c with control := .running p, stack := .call scope next :: c.stack }

def put (c : Config α) (n : CellId) (cell : Cell α) : Config α := { c with world := c.world.put n cell }

def log (c : Config α) (e : Entry α) : Config α := { c with world := c.world.log e }

/-- The running thread tells of an event in a cell whose lock is as given. -/
def emit (c : Config α) (e : Event) (n : CellId) (lock : Lock) : Config α :=
  { c with world := c.world.emit e n c.thread lock }

/-- A value's end: its code runs inside the call that gave it up. -/
def destroy (c : Config α) (s : Stored α) (scope : Scope α) (next : Outcome α → Program α) : Config α :=
  (c.log (.destroyed s.serial)).run s.value.onDestroy scope next

/-- One owner of a cell is gone, and then the call is over.  With the last owner the registry goes first: its values are
destroyed in the order of their ids, where any order would do, and nothing should rely on it. -/
def letGo (c : Config α) (n : CellId) (x : Outcome α) (next : Outcome α → Program α) : Config α :=
  match c.world.cells[n]? with
  | none => c.reply x next
  | some cell =>
    if cell.owners = 1 then
      { (c.put n { cell with owners := 0 }).log (.closed n) with control := .tearing n cell.registry.ids x next }
    else (c.put n { cell with owners := cell.owners - 1 }).reply x next

/-- Clears a cell without owners, one id after the other: its values are destroyed before the call is over. -/
def tearOn (c : Config α) (n : CellId) (ahead : List SlotId) (x : Outcome α) (next : Outcome α → Program α) :
    Config α :=
  match ahead, c.world.cells[n]? with
  | id :: ahead, some cell =>
    let c := c.put n (cell.withRegistry (cell.registry.remove id))
    match cell.registry.get? id with
    | some s => c.destroy s (.tearing n ahead x) next
    | none => { c with control := .tearing n ahead x next }
  | _, _ => c.reply x next

end Config

end SlotRegistry
