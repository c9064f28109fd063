import SlotRegistry.Tally
/-!
# Answer — what a step of a script comes to

An answer says what a step returned, why it was refused, or with which message it broke off.  The answer of a walk
through a registry holds the answers of the steps that were run on its visits.
-/
namespace SlotRegistry

/-- How a walk ended: with all it visited, with the number of ids it visited, or with a message. -/
inductive Ending (α : Type)
  | entries (spans : List (Span α))
  | distinct (n : Nat)
  | raised (message : String)

inductive Answer (α : Type)
  /-- The step is not well formed. -/
  | badInput
  /-- No handle has the step's name. -/
  | noHandle
  /-- No ticket has the step's number. -/
  | noTicket
  | done
  | refused (why : Refusal)
  /-- The step broke off with a message. -/
  | raised (message : String)
  /-- A reserved id and the number of its ticket. -/
  | reserved (id : SlotId) (ticket : Nat)
  /-- The number of a new ticket. -/
  | ticket (number : Nat)
  | value (v : α)
  | found (v : Option α)
  | flag (b : Bool)
  | number (n : Nat)
  /-- The ids reserved in a row, and what ended the row early. -/
  | row (ids : Runs) (stopped : Option Refusal)
  /-- A shape, to be written on one line and over several. -/
  | shape (o : Outline)
  /-- For each outcome the ids that had it. -/
  | tally (t : Tally)
  /-- A walk: its visits, its ending, and the answers on each visit if it was given steps. -/
  | walk (calls : Nat) (ending : Ending α) (each : Option (List (SlotId × List (Answer α))))
  /-- A crew of threads: how often each outcome, the ids reported, and how many reports there were. -/
  | crew (counts : List (String × Nat)) (ids : Runs) (reports : Nat)
  /-- The script was cut short in this step. -/
  | unanswered

namespace Answer

variable {α : Type}

/-- The message with which a step broke off. -/
def raised? : Answer α → Option String
  | raised message => some message
  | walk _ (.raised message) _ => some message
  | _ => none

/-- The message of the first step that broke off. -/
def firstRaised (answers : List (Answer α)) : Option String := answers.findSome? raised?

end Answer

end SlotRegistry
