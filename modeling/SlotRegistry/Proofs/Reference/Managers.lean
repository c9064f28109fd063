import SlotRegistry.Machine.Call
import SlotRegistry.Proofs.Reference.Table
/-!
# Managers — the reference for registries that are shared

The reference keeps the handles and one table for each registry; it knows nothing of locks, detectors, owners, values
with user code or steps.  A registry to which no handle belongs is gone, and a release of one of its ids does nothing.
-/
namespace SlotRegistry

variable {α : Type}

/-- What is asked of the managers when no user code inside makes calls: values are plain, and a visitor only says
whether to go on. -/
inductive Request (α : Type)
  | create (h : Handle)
  | share (source target : Handle)
  | giveUp (h : Handle)
  | reserve (h : Handle)
  | add (h : Handle) (id : SlotId) (v : α)
  | set (h : Handle) (id : SlotId) (v : α)
  | pop (h : Handle) (id : SlotId)
  | get (h : Handle) (id : SlotId)
  | contains (h : Handle) (id : SlotId)
  | size (h : Handle)
  | isEmpty (h : Handle)
  | cursor (h : Handle)
  | walk (h : Handle) (goesOn : Array (Visit α) → SlotId → Option α → Bool)
  | release (ticket : Ticket)

/-- The code of a visitor that makes no calls. -/
def visitor (goesOn : Array (Visit α) → SlotId → Option α → Bool) (visits : Array (Visit α)) (id : SlotId)
    (v : Option α) : Program α := .finish (if goesOn visits id v then .goOn else .stop) none

def Request.call : Request α → Call α (Program α)
  | create h => .create h
  | share source target => .share source target
  | giveUp h => .giveUp h
  | reserve h => .reserve h
  | add h id v => .add h id (.plain v)
  | set h id v => .set h id (.plain v)
  | pop h id => .pop h id
  | get h id => .get h id
  | contains h id => .contains h id
  | size h => .size h
  | isEmpty h => .isEmpty h
  | cursor h => .cursor h
  | walk h goesOn => .walk h (visitor goesOn)
  | release ticket => .release ticket

/-- What a visitor is shown of some entries, in their order, after the visits so far. -/
def tour (goesOn : Array (Visit α) → SlotId → Option α → Bool) :
    Array (Visit α) → List (SlotId × Option α) → Array (Visit α)
  | visits, [] => visits
  | visits, (id, v) :: ahead =>
    if goesOn visits id v then tour goesOn (visits.push ⟨id, v, none⟩) ahead else visits.push ⟨id, v, none⟩

/-- What comes of a request. -/
inductive Reply (α : Type)
  | done
  | noHandle
  | refused (why : Refusal)
  | reserved (ticket : Ticket)
  | added (ticket : Ticket)
  | popped (v : α)
  | found (v : Option α)
  | flag (b : Bool)
  | count (n : Nat)
  | cursor (id : SlotId)
  /-- The entries, for a visitor that is shown them in some order. -/
  | toured (entries : List (SlotId × Option α)) (goesOn : Array (Visit α) → SlotId → Option α → Bool)

/-- What came of a call is what was to come of the request: for a walk, the visits in some order of the entries. -/
inductive Reply.Shows : Reply α → Outcome α → Prop
  | done : Shows .done .done
  | noHandle : Shows .noHandle .noHandle
  | refused (why : Refusal) : Shows (.refused why) (.refused why)
  | reserved (ticket : Ticket) : Shows (.reserved ticket) (.reserved ticket)
  | added (ticket : Ticket) : Shows (.added ticket) (.added ticket)
  | popped (serial : Nat) (v : α) : Shows (.popped v) (.popped serial v)
  | found (v : Option α) : Shows (.found v) (.found v)
  | flag (b : Bool) : Shows (.flag b) (.flag b)
  | count (n : Nat) : Shows (.count n) (.count n)
  | cursor (id : SlotId) : Shows (.cursor id) (.cursor id)
  | toured {entries order : List (SlotId × Option α)} (goesOn : Array (Visit α) → SlotId → Option α → Bool)
      (perm : order.Perm entries) : Shows (.toured entries goesOn) (.walked (tour goesOn #[] order))

/-- The handles, and one table for each registry ever created. -/
structure Managers (α : Type) where
  handles : List (Handle × CellId)
  tables : List (Table α)

namespace Managers

def empty : Managers α := ⟨[], []⟩

/-- Some handle belongs to the registry. -/
def Live (m : Managers α) (n : CellId) : Prop := ∃ b ∈ m.handles, b.2 = n

instance (m : Managers α) (n : CellId) : Decidable (m.Live n) := inferInstanceAs (Decidable (∃ b ∈ m.handles, b.2 = n))

/-- The table of a handle, with the number of its registry. -/
def table? (m : Managers α) (h : Handle) : Option (CellId × Table α) :=
  (m.handles.lookup h).bind (fun n => (m.tables[n]?).map (fun t => (n, t)))

def put (m : Managers α) (n : CellId) (t : Table α) : Managers α := { m with tables := m.tables.set n t }

def unbind (m : Managers α) (h : Handle) : Managers α := { m with handles := m.handles.filter (fun b => b.1 ≠ h) }

/-- The handle belongs to a registry, whatever it belonged to before. -/
def bind (m : Managers α) (h : Handle) (n : CellId) : Managers α := { m with handles := (h, n) :: (m.unbind h).handles }

/-- Does something with the table of a handle. -/
def withTable (m : Managers α) (h : Handle) (act : CellId → Table α → Reply α × Managers α) : Reply α × Managers α :=
  match m.table? h with
  | none => (.noHandle, m)
  | some (n, t) => act n t

/-- What a table is left as goes back to its place; a request that is refused leaves all as it was. -/
def settle (m : Managers α) (n : CellId) : Except Refusal (Reply α × Table α) → Reply α × Managers α
  | .error why => (.refused why, m)
  | .ok (x, t) => (x, m.put n t)

/-- Frees an id of a registry that is not gone. -/
def release (m : Managers α) (ticket : Ticket) : Managers α :=
  match m.tables[ticket.cell]? with
  | none => m
  | some t => if m.Live ticket.cell then m.put ticket.cell (t.put ticket.id none) else m

/-- Fulfils a request. -/
def perform (m : Managers α) : Request α → Reply α × Managers α
  | .create h => (.done, { m with tables := m.tables ++ [Table.empty] }.bind h m.tables.length)
  | .share source target => m.withTable source fun n _ => (.done, m.bind target n)
  | .giveUp h => m.withTable h fun _ _ => (.done, m.unbind h)
  | .reserve h => m.withTable h fun n t => m.settle n (t.reserve.map fun (id, t) => (.reserved ⟨id, n⟩, t))
  | .add h id v => m.withTable h fun n t => m.settle n ((t.add id v).map fun t => (.added ⟨id, n⟩, t))
  | .set h id v => m.withTable h fun n t => m.settle n ((t.set id v).map fun t => (.done, t))
  | .pop h id => m.withTable h fun n t => m.settle n ((t.pop id).map fun (v, t) => (.popped v, t))
  | .get h id => m.withTable h fun _ t => (.found (t.get? id), m)
  | .contains h id => m.withTable h fun _ t => (.flag (t.slots id).isSome, m)
  | .size h => m.withTable h fun _ t => (.count t.size, m)
  | .isEmpty h => m.withTable h fun _ t => (.flag (t.size == 0), m)
  | .cursor h => m.withTable h fun _ t => (.cursor t.cursor, m)
  | .walk h goesOn => m.withTable h fun _ t => (.toured t.entries goesOn, m)
  | .release ticket => (.done, m.release ticket)

/-- The replies to a history of requests, and what is left of the managers. -/
def fulfil (m : Managers α) : List (Request α) → List (Reply α) × Managers α
  | [] => ([], m)
  | r :: history => ((m.perform r).1 :: ((m.perform r).2.fulfil history).1, ((m.perform r).2.fulfil history).2)

section Refused

variable {m : Managers α} {n : CellId} {h : Handle} {why : Refusal}

theorem settle_of_refused {β : Type} {e : Except Refusal β} {f : β → Reply α × Table α}
    (hf : ∀ b, (f b).1 ≠ .refused why) (hx : (m.settle n (e.map f)).1 = .refused why) :
    (m.settle n (e.map f)).2 = m := by
  cases e with
  | error why => rfl
  | ok b => exact absurd hx (hf b)

theorem withTable_of_refused {act : CellId → Table α → Reply α × Managers α}
    (hact : ∀ n t, (act n t).1 = .refused why → (act n t).2 = m) (hx : (m.withTable h act).1 = .refused why) :
    (m.withTable h act).2 = m := by
  unfold withTable at hx ⊢
  split at hx
  · rfl
  · exact hact _ _ hx

/-- **A request that is refused leaves all managers as they were.** -/
theorem perform_of_refused {r : Request α} (hx : (m.perform r).1 = .refused why) : (m.perform r).2 = m := by
  cases r with
  | create h => cases hx
  | share source target => exact withTable_of_refused (fun _ _ h => by cases h) hx
  | giveUp h => exact withTable_of_refused (fun _ _ h => by cases h) hx
  | reserve h => exact withTable_of_refused (fun _ _ h => settle_of_refused nofun h) hx
  | add h id v => exact withTable_of_refused (fun _ _ h => settle_of_refused nofun h) hx
  | set h id v => exact withTable_of_refused (fun _ _ h => settle_of_refused nofun h) hx
  | pop h id => exact withTable_of_refused (fun _ _ h => settle_of_refused nofun h) hx
  | get h id => exact withTable_of_refused (fun _ _ h => rfl) hx
  | contains h id => exact withTable_of_refused (fun _ _ h => rfl) hx
  | size h => exact withTable_of_refused (fun _ _ h => rfl) hx
  | isEmpty h => exact withTable_of_refused (fun _ _ h => rfl) hx
  | cursor h => exact withTable_of_refused (fun _ _ h => rfl) hx
  | walk h goesOn => exact withTable_of_refused (fun _ _ h => rfl) hx
  | release ticket => cases hx

end Refused

end Managers

end SlotRegistry
