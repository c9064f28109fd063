import SlotRegistry.Machine.Call
/-!
# Step — from one configuration to the next

A step makes one call, carries on with the call whose user code has just ended, or hands on what a call came to.
-/
namespace SlotRegistry
namespace Config

variable {α : Type}

/-- Carries on with a call whose user code has ended.  A message raised there becomes the call's own, unless the call
was breaking off already; raised while a cell is cleared, it leaves the rest of the cell as it is, out of everyone's
reach. -/
def resume (c : Config α) (scope : Scope α) (next : Outcome α → Program α) (v : Verdict)
    (report : Option (List (Answer α))) : Config α :=
  match scope, v with
  | .walking n visit visits id value ahead, .goOn => c.walkOn n visit (visits.push ⟨id, value, report⟩) ahead next
  | .walking n _ visits id value _, .stop => c.endReading n (.walked (visits.push ⟨id, value, report⟩)) next
  | .walking n _ visits id value _, .raise message =>
    c.endReading n (.raised message (visits.push ⟨id, value, report⟩)) next
  | .copying n _, .raise message => c.endReading n (.raised message #[]) next
  | .copying n payload, _ => c.endReading n (.found (some payload)) next
  | .rejecting n _, .raise message => c.endWriting n (.raised message #[]) next
  | .rejecting n why, _ => c.endWriting n (.refused why) next
  | .bouncing _, .raise _ => c.abort
  | .bouncing n, _ => c.letGo n (.raised reentryMessage #[]) next
  | .discarding n, .raise message => c.letGo n (.raised message #[]) next
  | .discarding n, _ => c.letGo n .done next
  | .tearing _ _ (.raised _ _), .raise _ => c.abort
  | .tearing _ _ _, .raise message => c.reply (.raised message #[]) next
  | .tearing n ahead x, _ => { c with control := .tearing n ahead x next }
  | .disposing, .raise message => c.reply (.raised message #[]) next
  | .disposing, _ => c.reply .done next

/-- Starts a program on a thread of its own. -/
def start (c : Config α) (body : Program α) (next : Verdict → Option (List (Answer α)) → Program α) : Config α :=
  { world := { c.world with threads := c.world.threads + 1 }
    thread := c.world.threads
    control := .running body
    stack := .join c.thread next :: c.stack }

/-- The next configuration; a configuration with nothing left to do stays as it is. -/
def step (c : Config α) : Config α :=
  match c.control with
  | .running (.call call next) => c.perform next call
  | .running (.note n p) => { c.log (.note n c.thread) with control := .running p }
  | .running (.onThread body next) => c.start body next
  | .running (.finish v report) =>
    match c.stack with
    | [] => c
    | .call scope next :: stack => { c with stack := stack }.resume scope next v report
    | .join thread next :: stack => { c with thread := thread, control := .running (next v report), stack := stack }
  | .replying x next => { c with control := .running (next x) }
  | .tearing n ahead x next => c.tearOn n ahead x next
  | .blocked => c
  | .aborted => c

/-- Whether there is nothing left to do. -/
def isOver (c : Config α) : Bool :=
  match c.control with
  | .running (.finish _ _) => c.stack.isEmpty
  | .blocked => true
  | .aborted => true
  | _ => false

/-- The configuration after `n` steps, or as soon as there is nothing left to do. -/
def advance : Nat → Config α → Config α
  | 0, c => c
  | n + 1, c => if c.isOver then c else advance n c.step

/-- One configuration leads to another in some number of steps. -/
inductive Reaches : Config α → Config α → Prop
  | refl (c : Config α) : Reaches c c
  | tail {a b : Config α} (h : Reaches a b) : Reaches a b.step

theorem step_of_isOver {c : Config α} (h : c.isOver) : c.step = c := by
  unfold isOver at h; unfold step
  split at h <;> simp_all

theorem Reaches.trans {a b c : Config α} (hab : Reaches a b) (hbc : Reaches b c) : Reaches a c := by
  induction hbc with
  | refl => exact hab
  | tail _ ih => exact .tail ih

theorem Reaches.step_left {a b : Config α} (h : Reaches a.step b) : Reaches a b := (Reaches.tail (.refl a)).trans h

theorem reaches_advance : ∀ (n : Nat) (c : Config α), Reaches c (advance n c)
  | 0, c => .refl c
  | n + 1, c => by
    rw [advance]
    split
    · exact .refl c
    · exact (reaches_advance n c.step).step_left

end Config

end SlotRegistry
