import SlotRegistry.Datum
import SlotRegistry.Program
/-!
# Pending — programs that are still to be told how to go on

A step of a script comes to an answer, and the steps after it go on from there.  Every call's raised message is caught
and becomes the step's answer.
-/
namespace SlotRegistry
namespace Script

/-- A program that has an answer to go on with. -/
abbrev Pending := (Answer Datum → Program Datum) → Program Datum

def glanceOutline : Option Glance → Outline
  | none => .record "IdManager" [("table", .leaf "<locked>")]
  | some g => .record "IdManager" [("len", .leaf (toString g.size)), ("last_id", .leaf (toString g.cursor.toNat))]

def ticketOutline (ticket : Ticket) : Outline := .record "Release" [("id", .leaf (toString ticket.id.toNat))]

/-- The answer of a step that makes one call. -/
def answerOf : Outcome Datum → Answer Datum
  | .done => .done
  | .noHandle => .noHandle
  | .refused why => .refused why
  | .raised message _ => .raised message
  | .popped _ v => .value v
  | .found v => .found v
  | .flag b => .flag b
  | .count n => .number n
  | .cursor id => .number id.toNat
  | .glance g => .shape (glanceOutline g)
  | .shelved number => .ticket number
  | _ => .unanswered

/-- Makes one call. -/
def single (c : Call Datum (Program Datum)) : Pending := fun k => .call c fun x => k (answerOf x)

/-- Takes a value out and destroys it; a message raised then takes the place of the outcome. -/
def popAndDispose (h : Handle) (id : SlotId) (next : Outcome Datum → Program Datum) : Program Datum :=
  .call (.pop h id) fun
    | .popped serial v => .call (.dispose serial) fun
      | .raised message visits => next (.raised message visits)
      | _ => next (.popped serial v)
    | x => next x

/-- A step that is not well formed; an unknown handle comes first. -/
def malformed (h : Handle) : Pending := fun k =>
  .call (.inspect h) fun
    | .noHandle => k .noHandle
    | _ => k .badInput

/-- Makes one call about an id, if there is one. -/
def withId (h : Handle) (id : Option SlotId) (c : SlotId → Call Datum (Program Datum)) : Pending :=
  match id with
  | none => malformed h
  | some id => single (c id)

/-- Does something with the ticket kept under a number. -/
def withTicket (number : Option Nat) (act : Ticket → Nat → Pending) : Pending := fun k =>
  match number with
  | none => k .badInput
  | some number => .call (.shelved number) fun
    | .onShelf (some ticket) => act ticket number k
    | _ => k .noTicket

/-- Does something with a handle to the same registry that nobody else has, and gives it up.  So the registry outlives
what is done, and a message raised when its last values are destroyed takes the place of the answer. -/
def holding (h : Handle) (act : Handle → Pending) : Pending := fun k =>
  .call (.hold h) fun
    | .held own => act own fun a => .call (.giveUp own) fun
      | .raised message _ => k (.raised message)
      | _ => k a
    | x => k (answerOf x)

end Script
end SlotRegistry
