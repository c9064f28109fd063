import SlotRegistry.Registry.Row
import SlotRegistry.Registry.Scan
import SlotRegistry.Script.Bulk
import SlotRegistry.Tally
import SlotRegistry.Datum.Text
/-!
# Solo scripts — steps on one registry that nobody shares

Each step is answered, and reported with the registry's size and cursor after it.
-/
namespace SlotRegistry

inductive SoloBulkAction
  | insert
  | fill
  | take
  | remove
  | slot
  | get
  deriving DecidableEq, Repr

/-- What a step does with the registry.  A field that should be there and is not, or is of the wrong kind, is none. -/
inductive SoloAction
  | malformed
  | create
  | reserve
  | reserveRow (n : Option Nat)
  | insert (id : Option SlotId) (value : Datum)
  | fill (id : Option SlotId) (value : Datum)
  | take (id : Option SlotId)
  | remove (id : Option SlotId)
  | slot (id : Option SlotId)
  | get (id : Option SlotId)
  | contains (id : Option SlotId)
  | size
  | isEmpty
  | cursor
  | shape
  /-- A scan of at most so many entries, of all if there is no limit; they are listed or just counted. -/
  | scan (limit : Option Nat) (listed : Bool)
  | bulk (b : Option (Bulk SoloBulkAction))

inductive SoloAnswer
  | badInput
  | done
  | refused (why : Refusal)
  | reserved (id : SlotId)
  | row (ids : Runs) (stopped : Option Refusal)
  | value (v : Datum)
  | slot (s : Option (Slot Datum))
  | found (v : Option Datum)
  | flag (b : Bool)
  | number (n : Nat)
  | shape (o : Outline)
  /-- How many entries were ahead at least before and after the scan, how many it got, and which if they were to be
  listed. -/
  | scan (before after count : Nat) (entries : Option (List (Span Datum)))
  | tally (t : Tally)

/-- A step's answer, and the registry's size and cursor after it. -/
structure SoloReport where
  answer : SoloAnswer
  size : Nat
  cursor : SlotId

namespace SoloAction

/-- At most so many ids are reserved in a row. -/
def rowLimit : Nat := 70000

/-- Only a registry with at most so many entries is written out. -/
def shapeLimit : Nat := 1

/-- The answer and registry that a refusable request comes to. -/
def settle (r : Registry Datum) : Except Refusal (SoloAnswer × Registry Datum) → SoloAnswer × Registry Datum
  | .ok done => done
  | .error why => (.refused why, r)

def onId (r : Registry Datum) (id : Option SlotId) (act : SlotId → SoloAnswer × Registry Datum) :
    SoloAnswer × Registry Datum :=
  match id with
  | none => (.badInput, r)
  | some id => act id

/-- The name of an id's state. -/
def stateName : Option (Slot Datum) → String
  | none => "absent"
  | some .reserved => "reserved"
  | some (.occupied _) => "occupied"

/-- One call of a bulk step: the name of its outcome, and the registry after it. -/
def bulkCall (r : Registry Datum) (b : Bulk SoloBulkAction) (id : SlotId) : String × Registry Datum :=
  let refusable (x : Except Refusal (Registry Datum)) : String × Registry Datum :=
    match x with
    | .ok r => ("ok", r)
    | .error why => (why.kind, r)
  match b.action with
  | .insert => refusable (r.insert id b.value)
  | .fill => refusable (r.fill id b.value)
  | .take => refusable ((r.take id).map Prod.snd)
  | .remove => (stateName (r.slot? id), r.remove id)
  | .slot => (stateName (r.slot? id), r)
  | .get => (if (r.get? id).isSome then "some" else "none", r)

def runBulk (b : Bulk SoloBulkAction) : Registry Datum → List SlotId → Tally → SoloAnswer × Registry Datum
  | r, [], tally => (.tally tally, r)
  | r, id :: ids, tally =>
    let (name, r) := bulkCall r b id
    runBulk b r ids (tally.add name id)

def runScan (r : Registry Datum) (limit : Option Nat) (listed : Bool) : SoloAnswer :=
  let (got, after) := r.scan.advance (limit.getD r.scan.sizeHint.1)
  let entries := got.map fun e => (e.1, Slot.ofValue? e.2)
  .scan r.scan.sizeHint.1 after.sizeHint.1 got.length (if listed then some (Span.ofEntries entries) else none)

def run (r : Registry Datum) : SoloAction → SoloAnswer × Registry Datum
  | .malformed => (.badInput, r)
  | .create => (.done, .empty)
  | .reserve => settle r (r.reserve.map fun x => (.reserved x.1, x.2))
  | .reserveRow none => (.badInput, r)
  | .reserveRow (some n) =>
    let (ids, stopped, r) := r.reserveRow (min n rowLimit) .empty
    (.row ids stopped, r)
  | .insert id v => onId r id fun id => settle r ((r.insert id v).map fun r => (.done, r))
  | .fill id v => onId r id fun id => settle r ((r.fill id v).map fun r => (.done, r))
  | .take id => onId r id fun id => settle r ((r.take id).map fun x => (.value x.1, x.2))
  | .remove id => onId r id fun id => (.slot (r.slot? id), r.remove id)
  | .slot id => onId r id fun id => (.slot (r.slot? id), r)
  | .get id => onId r id fun id => (.found (r.get? id), r)
  | .contains id => onId r id fun id => (.flag (r.contains id), r)
  | .size => (.number r.size, r)
  | .isEmpty => (.flag r.isEmpty, r)
  | .cursor => (.number r.cursor.toNat, r)
  | .shape => (if r.size ≤ shapeLimit then .shape (r.outline Datum.render) else .badInput, r)
  | .scan limit listed => (runScan r limit listed, r)
  | .bulk none => (.badInput, r)
  | .bulk (some b) => runBulk b r b.ids .empty

def runAll (r : Registry Datum) : List SoloAction → List SoloReport × Registry Datum
  | [] => ([], r)
  | a :: rest =>
    let (answer, r) := a.run r
    let (reports, last) := runAll r rest
    (⟨answer, r.size, r.cursor⟩ :: reports, last)

end SoloAction

end SlotRegistry
