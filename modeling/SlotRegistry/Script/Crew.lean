import Std.Data.ExtTreeSet
import SlotRegistry.Script.Pending
import SlotRegistry.Script.Step
/-!
# Crew — threads that all make the same call

Each call of a crew enters and leaves the registry as a whole, so the totals do not depend on how the threads take
turns; here they run one after the other.  A thread in which a call breaks off makes no more calls and has nothing to
report; the others go on.
-/
namespace SlotRegistry
namespace Script

/-- At most so many threads are in a crew, and at least one. -/
def crewLimit : Nat := 16

/-- At most so many calls are made by each thread. -/
def timesLimit : Nat := 1000

/-- A crew within the limits. -/
def crewWithinLimits (c : Crew) : Crew :=
  { c with threads := max 1 (min c.threads crewLimit), times := min c.times timesLimit }

/-- One call of a crew's thread: refused, done with nothing to report, or done with an id to report.  A value taken out
is destroyed. -/
def crewCall (h : Handle) (c : Crew) (ticket : Option Ticket) (id : SlotId) : Pending := fun k =>
  let reserving (andThen : Ticket → Program Datum) : Program Datum := .call (.reserve h) fun
    | .reserved t => .call (.set h t.id (.plain c.value)) fun
      | .done => andThen t
      | x => k (answerOf x)
    | x => k (answerOf x)
  match c.action with
  | .reserve => .call (.reserve h) fun
    | .reserved t => k (.number t.id.toNat)
    | x => k (answerOf x)
  | .add | .addOwn => .call (.add h id (.plain c.value)) fun
    | .added t => k (.number t.id.toNat)
    | x => k (answerOf x)
  | .set => single (.set h id (.plain c.value)) k
  | .pop => popAndDispose h id fun
    | .popped _ _ => k .done
    | x => k (answerOf x)
  | .get => .call (.get h id) fun
    | .found (some _) => k (.number id.toNat)
    | .found none => k .done
    | x => k (answerOf x)
  | .release =>
    match ticket with
    | some t => single (.release t) k
    | none => k .badInput
  | .reservePop => reserving fun t => popAndDispose h t.id fun
    | .popped _ _ => k (.number t.id.toNat)
    | x => k (answerOf x)
  | .reserveRelease => reserving fun t => .call (.release t) fun
    | .done => k (.number t.id.toNat)
    | x => k (answerOf x)

/-- The id of a thread's `i`-th call. -/
def crewId (c : Crew) (thread i : Nat) : SlotId :=
  if c.action = .addOwn then UInt16.ofNat (c.id.toNat + thread * c.times + i) else c.id

/-- The calls of one thread: the last `n` of them, answers last first. -/
def crewCalls (h : Handle) (c : Crew) (ticket : Option Ticket) (thread : Nat) :
    Nat → List (Answer Datum) → Program Datum
  | 0, answers => .finish .goOn (some answers)
  | n + 1, answers => crewCall h c ticket (crewId c thread (c.times - (n + 1))) fun
    | .raised message => .finish (.raise message) none
    | a => crewCalls h c ticket thread n (a :: answers)

/-- One more outcome under a name. -/
def count (name : String) : List (String × Nat) → List (String × Nat)
  | [] => [(name, 1)]
  | (n, i) :: rest => if n = name then (n, i + 1) :: rest else (n, i) :: count name rest

/-- Under which name a call's answer is counted. -/
def crewName : Answer Datum → String
  | .refused why => why.outline.compact
  | _ => "ok"

/-- The id a call reports. -/
def reportedId? : Answer Datum → Option SlotId
  | .number n => some (UInt16.ofNat n)
  | _ => none

def isBadInput : Answer Datum → Bool
  | .badInput => true
  | _ => false

/-- What a crew's answers come to. -/
def crewAnswer (answers : List (Answer Datum)) : Answer Datum :=
  if answers.any isBadInput then .badInput
  else
    let ids := answers.filterMap reportedId?
    .crew (answers.foldl (fun counts a => count (crewName a) counts) [])
      (Runs.ofList (Std.ExtTreeSet.ofList ids).toList) ids.length

/-- The threads of a crew, one after the other: the last `n` of them. -/
def crewThreads (h : Handle) (c : Crew) (ticket : Option Ticket) : Nat → List (Answer Datum) → Pending
  | 0, answers => fun k => k (crewAnswer answers)
  | n + 1, answers => fun k => .onThread (crewCalls h c ticket (c.threads - (n + 1)) c.times []) fun _ report =>
    crewThreads h c ticket n (report.getD [] ++ answers) k

/-- A step that starts a crew. -/
def crew (h : Handle) (c : Crew) : Pending :=
  let c := crewWithinLimits c
  holding h fun own =>
    match c.ticket with
    | none => crewThreads own c none c.threads []
    | some number => fun k => .call (.shelved number) fun
      | .onShelf ticket => crewThreads own c ticket c.threads [] k
      | x => k (answerOf x)

end Script
end SlotRegistry
