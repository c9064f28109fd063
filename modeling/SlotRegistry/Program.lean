import SlotRegistry.Answer
/-!
# Program — user code, as a tree of calls

User code runs inside a registry in three places: a visitor on each visit of a walk, the code that copies a value when
it is read, and the code that runs when a value is destroyed.  A program is such code as a tree: it makes a call and
goes on with what came of it, puts a note into the journal, has a body run on a thread of its own, or finishes.  What
came of a call includes a raised message, so a program that goes on has caught it and one that finishes with `raise`
breaks off.
-/
namespace SlotRegistry

/-- The number of a shared registry, in the order of creation. -/
abbrev CellId := Nat

/-- What keeps a shared registry alive: a handle under a name, or under a number of its own. -/
inductive Handle
  | named (name : String)
  | own (number : Nat)
  deriving DecidableEq, Repr

/-- What frees an id of a shared registry.  A ticket does not keep the registry alive, and can be used again. -/
structure Ticket where
  id : SlotId
  cell : CellId
  deriving DecidableEq, Repr

/-- How user code ends; only for a visitor do `goOn` and `stop` differ. -/
inductive Verdict
  | goOn
  | stop
  | raise (message : String)
  deriving DecidableEq, Repr

/-- A value as it is handed over: its data, and what runs when it is destroyed and when it is copied. -/
structure Value (α κ : Type) where
  payload : α
  onDestroy : κ
  onCopy : κ

/-- One visit of a walk: the entry shown, and the answers given on the visit, none if no steps were run. -/
structure Visit (α : Type) where
  id : SlotId
  value : Option α
  report : Option (List (Answer α))

/-- What a look at a registry shows without entering it. -/
structure Glance where
  size : Nat
  cursor : SlotId
  deriving DecidableEq, Repr

/-- What comes of a call. -/
inductive Outcome (α : Type)
  | done
  | noHandle
  | refused (why : Refusal)
  /-- The call broke off; a walk's visits up to then are kept. -/
  | raised (message : String) (visits : Array (Visit α))
  | reserved (ticket : Ticket)
  | added (ticket : Ticket)
  /-- A value was given back, with the number it got when it was handed over. -/
  | popped (serial : Nat) (v : α)
  | found (v : Option α)
  | flag (b : Bool)
  | count (n : Nat)
  | cursor (id : SlotId)
  /-- What a look showed, none while a writer holds the lock. -/
  | glance (g : Option Glance)
  | walked (visits : Array (Visit α))
  /-- A new handle under a number of its own. -/
  | held (h : Handle)
  /-- The number under which a ticket is kept. -/
  | shelved (number : Nat)
  /-- The ticket kept under a number. -/
  | onShelf (ticket : Option Ticket)

/-- A call, with user code of type `κ` inside. -/
inductive Call (α κ : Type)
  /-- A fresh registry, under a handle. -/
  | create (h : Handle)
  /-- Another handle to the same registry. -/
  | share (source target : Handle)
  /-- Another handle to the same registry, under a number of its own. -/
  | hold (h : Handle)
  | giveUp (h : Handle)
  /-- A look at the registry without entering it. -/
  | inspect (h : Handle)
  | reserve (h : Handle)
  | add (h : Handle) (id : SlotId) (v : Value α κ)
  | set (h : Handle) (id : SlotId) (v : Value α κ)
  | pop (h : Handle) (id : SlotId)
  | get (h : Handle) (id : SlotId)
  | contains (h : Handle) (id : SlotId)
  | size (h : Handle)
  | isEmpty (h : Handle)
  | cursor (h : Handle)
  /-- A walk through the registry; the visitor is told the visits before this one. -/
  | walk (h : Handle) (visit : Array (Visit α) → SlotId → Option α → κ)
  | release (ticket : Ticket)
  /-- Destroys a value that was given back. -/
  | dispose (serial : Nat)
  /-- Keeps a ticket on the shelf, under the next number. -/
  | shelve (ticket : Ticket)
  | shelved (number : Nat)
  | unshelve (number : Nat)

/-- Which code of a value runs. -/
inductive Hook
  | destroy
  | copy
  deriving DecidableEq, Repr

/-- What user code puts into the journal. -/
inductive Note (α : Type)
  | began (hook : Hook) (payload : α)
  | ended (answers : List (Answer α))

inductive Program (α : Type)
  | finish (verdict : Verdict) (report : Option (List (Answer α)))
  | call (c : Call α (Program α)) (next : Outcome α → Program α)
  | note (n : Note α) (next : Program α)
  /-- Runs the body on a thread of its own and waits for its end. -/
  | onThread (body : Program α) (next : Verdict → Option (List (Answer α)) → Program α)

/-- User code that does nothing. -/
def Program.idle {α : Type} : Program α := finish .goOn none

/-- A value without user code. -/
def Value.plain {α : Type} (payload : α) : Value α (Program α) := ⟨payload, .idle, .idle⟩

end SlotRegistry
