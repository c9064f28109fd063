import Std.Data.ExtTreeSet
import SlotRegistry.Script.Pending
/-!
# Walk — what a walk's visits come to
-/
namespace SlotRegistry
namespace Script

/-- With what a visitor breaks off that was told to. -/
def visitorMessage : String := "visitor panic"

/-- How code attached to a walk or a value ends after its steps: with the first message raised in them if it is to be
passed on, otherwise as it would have ended without steps. -/
def verdictAfter (propagate : Bool) (answers : List (Answer Datum)) (otherwise : Verdict) : Verdict :=
  match propagate, Answer.firstRaised answers with
  | true, some message => .raise message
  | _, _ => otherwise

/-- Whether a walk goes on after a number of calls of its visitor. -/
def goesOn (stopAfter : Option Nat) (calls : Nat) : Verdict :=
  match stopAfter with
  | some n => if calls < n then .goOn else .stop
  | none => .goOn

def distinctIds (visits : List (Visit Datum)) : Nat := (Std.ExtTreeSet.ofList (visits.map (·.id))).size

/-- The spans of what was visited. -/
def visitedSpans (visits : List (Visit Datum)) : List (Span Datum) :=
  Span.ofEntries (visits.map fun v => (v.id, Slot.ofValue? v.value))

/-- The answers given on each visit on which steps were run. -/
def visitAnswers (visits : List (Visit Datum)) : List (SlotId × List (Answer Datum)) :=
  visits.filterMap fun v => v.report.map fun answers => (v.id, answers)

/-- The answer of a walk, which may have been told when to stop and may have been given steps. -/
def walkAnswer (stops hasSteps : Bool) (x : Outcome Datum) : Answer Datum :=
  let each (visits : List (Visit Datum)) := if hasSteps then some (visitAnswers visits) else none
  match x with
  | .walked visits =>
    let visits := visits.toList
    .walk visits.length (if stops then .distinct (distinctIds visits) else .entries (visitedSpans visits)) (each visits)
  | .raised message visits => .walk visits.size (.raised message) (each visits.toList)
  | x => answerOf x

end Script
end SlotRegistry
