import SlotRegistry.Script.Pending
import SlotRegistry.Script.Step
/-!
# Row — steps that make one call many times
-/
namespace SlotRegistry
namespace Script

/-- At most so many ids are reserved in a row. -/
def rowLimit : Nat := 70000

/-- Reserves up to `n` ids, after those reserved before, and stops when one is refused. -/
def reserveRow (h : Handle) (keep : Bool) : Nat → Runs → Pending
  | 0, ids => fun k => k (.row ids none)
  | n + 1, ids => fun k => .call (.reserve h) fun
    | .reserved ticket =>
      if keep then .call (.shelve ticket) fun _ => reserveRow h keep n (ids.push ticket.id) k
      else reserveRow h keep n (ids.push ticket.id) k
    | .refused why => k (.row ids (some why))
    | x => k (answerOf x)

/-- One call of a bulk step.  A value taken out is destroyed. -/
def bulkCall (h : Handle) (b : Bulk BulkAction) (id : SlotId) (next : Outcome Datum → Program Datum) : Program Datum :=
  match b.action with
  | .add => .call (.add h id (.plain b.value)) next
  | .set => .call (.set h id (.plain b.value)) next
  | .pop => popAndDispose h id next
  | .get => .call (.get h id) next
  | .contains => .call (.contains h id) next

/-- Under which name an outcome is counted. -/
def outcomeName : Outcome Datum → String
  | .refused why => why.kind
  | .found none => "none"
  | .found (some _) => "some"
  | .flag b => toString b
  | _ => "ok"

/-- Makes a call on one id after the other; a raised message ends the step. -/
def bulk (h : Handle) (b : Bulk BulkAction) : List SlotId → Tally → Pending
  | [], tally => fun k => k (.tally tally)
  | id :: ids, tally => fun k => bulkCall h b id fun
    | .raised message _ => k (.raised message)
    | x => bulk h b ids (tally.add (outcomeName x) id) k

end Script
end SlotRegistry
