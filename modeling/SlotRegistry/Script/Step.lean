import SlotRegistry.Script.Bulk
/-!
# Step — what a script can ask for

A script is a list of steps, each about a handle given by name.  Steps can be attached to a walk, to be run on each
visit, and to a value, to be run when it is destroyed or copied.
-/
namespace SlotRegistry

/-- The entry a step is visiting: its id, and its value unless it is reserved.  Most steps visit nothing. -/
abbrev Here := Option (SlotId × Option Datum)

/-- Where a step gets its id from. -/
inductive IdSource
  | given (id : SlotId)
  /-- The id of the entry being visited. -/
  | visited
  | malformed
  deriving DecidableEq, Repr

def IdSource.resolve (here : Here) : IdSource → Option SlotId
  | given id => some id
  | visited => here.map Prod.fst
  | malformed => none

/-- Where a step gets its value from. -/
inductive ValueSource
  | given (value : Datum)
  /-- The value of the entry being visited, null if it is reserved. -/
  | visited

def ValueSource.resolve (here : Here) : ValueSource → Datum
  | given v => v
  | visited => (here.bind Prod.snd).getD .null

/-- Calls that can be made in bulk. -/
inductive BulkAction
  | add
  | set
  | pop
  | get
  | contains
  deriving DecidableEq, Repr

/-- Calls that a crew of threads can make. -/
inductive CrewAction
  | reserve
  | add
  /-- Each call adds an id of its own. -/
  | addOwn
  | set
  | pop
  | get
  | release
  /-- Each call reserves an id, fills it and takes the value out again. -/
  | reservePop
  /-- Each call reserves an id, fills it and releases it. -/
  | reserveRelease
  deriving DecidableEq, Repr

/-- A number of threads that each make a call a number of times. -/
structure Crew where
  threads : Nat
  times : Nat
  action : CrewAction
  id : SlotId
  value : Datum
  ticket : Option Nat

/-- What a step does.  A field that should be there and is not, or is of the wrong kind, is none. -/
inductive Action
  /-- The step does not say what to do. -/
  | missing
  | unknown
  | create
  | share (target : String)
  | giveUp
  | release (ticket : Option Nat)
  | ticketId (ticket : Option Nat)
  | ticketCopy (ticket : Option Nat)
  | ticketGiveUp (ticket : Option Nat)
  | ticketShape (ticket : Option Nat)
  | reserve
  | reserveRow (n : Option Nat) (keep : Bool)
  | add (id : IdSource) (value : ValueSource) (keep : Bool) (onDestroy onCopy : Option (List (String × Action) × Bool))
  | set (id : IdSource) (value : ValueSource) (onDestroy onCopy : Option (List (String × Action) × Bool))
  | pop (id : IdSource)
  | get (id : IdSource)
  | contains (id : IdSource)
  | size
  | isEmpty
  | cursor
  | inspect
  | bulk (b : Option (Bulk BulkAction))
  | walk (stopAfter raiseAt : Option Nat) (each : Option (List (String × Action))) (onThread propagate : Bool)
  | crew (c : Option Crew)

instance : Inhabited Action := ⟨.missing⟩

/-- The name of a handle, and what to do. -/
abbrev Step := String × Action

/-- Whether a visitor may have the step run on another thread: it does not wait until the registry can be written. -/
def Action.sharesLock : Action → Bool
  | get _ | contains _ | size | isEmpty | cursor | inspect | walk .. | ticketId _ => true
  | _ => false

end SlotRegistry
