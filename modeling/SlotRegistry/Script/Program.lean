import SlotRegistry.Script.Crew
import SlotRegistry.Script.Row
import SlotRegistry.Script.Walk
/-!
# The program of a step

A step becomes a program that makes the step's calls and goes on with its answer, so the steps after it are run
whatever it comes to.  Code attached to a value or a walk can pass on the first message raised in its steps when they
are done.
-/
namespace SlotRegistry
namespace Script

/-- Keeps the ticket of an added id, if it is wanted, and answers with its number. -/
def keepAdded (keep : Bool) (k : Answer Datum → Program Datum) : Outcome Datum → Program Datum
  | .added ticket => if keep then single (.shelve ticket) k else k .done
  | x => k (answerOf x)

/-- Keeps the ticket of a reserved id, and answers with both. -/
def keepReserved (k : Answer Datum → Program Datum) : Outcome Datum → Program Datum
  | .reserved ticket => .call (.shelve ticket) fun
    | .shelved number => k (.reserved ticket.id number)
    | x => k (answerOf x)
  | x => k (answerOf x)

mutual

/-- The program of a step about the handle of a name, run in a visit or not.  A step keeps the registry it is about
until it has an answer: a call that stores or copies a value does so by itself, a walk, a share and a step of many calls
hold a handle of their own. -/
def program (here : Here) (name : String) : Action → Pending
  | .missing => fun k => k .badInput
  | .unknown => malformed (.named name)
  | .create => single (.create (.named name))
  | .share target => holding (.named name) fun own => single (.share own (.named target))
  | .giveUp => single (.giveUp (.named name))
  | .release number => withTicket number fun ticket _ => single (.release ticket)
  | .ticketId number => withTicket number fun ticket _ k => k (.number ticket.id.toNat)
  | .ticketCopy number => withTicket number fun ticket _ => single (.shelve ticket)
  | .ticketGiveUp number => withTicket number fun _ number => single (.unshelve number)
  | .ticketShape number => withTicket number fun ticket _ k => k (.shape (ticketOutline ticket))
  | .reserve => fun k => .call (.reserve (.named name)) (keepReserved k)
  | .reserveRow none _ => malformed (.named name)
  | .reserveRow (some n) keep => holding (.named name) fun own => reserveRow own keep (min n rowLimit) .empty
  | .add id value keep onDestroy onCopy =>
    let payload := value.resolve here
    match id.resolve here with
    | none => malformed (.named name)
    | some id => fun k =>
      .call (.add (.named name) id ⟨payload, hook .destroy payload onDestroy, hook .copy payload onCopy⟩)
        (keepAdded keep k)
  | .set id value onDestroy onCopy =>
    let payload := value.resolve here
    withId (.named name) (id.resolve here) fun id =>
      .set (.named name) id ⟨payload, hook .destroy payload onDestroy, hook .copy payload onCopy⟩
  | .pop id => withId (.named name) (id.resolve here) (.pop (.named name))
  | .get id => withId (.named name) (id.resolve here) (.get (.named name))
  | .contains id => withId (.named name) (id.resolve here) (.contains (.named name))
  | .size => single (.size (.named name))
  | .isEmpty => single (.isEmpty (.named name))
  | .cursor => single (.cursor (.named name))
  | .inspect => single (.inspect (.named name))
  | .bulk none => malformed (.named name)
  | .bulk (some b) => holding (.named name) fun own => bulk own b b.ids .empty
  | .walk stopAfter raiseAt none onThread _ =>
    if onThread then malformed (.named name)
    else holding (.named name) fun own k => .call (.walk own fun visits _ _ =>
        let calls := visits.size + 1
        .finish (if raiseAt = some calls then .raise visitorMessage else goesOn stopAfter calls) none)
      fun x => k (walkAnswer stopAfter.isSome false x)
  | .walk stopAfter raiseAt (some each) onThread propagate =>
    if onThread && !each.all (·.2.sharesLock) then malformed (.named name)
    else holding (.named name) fun own k => .call (.walk own fun visits id value =>
        let calls := visits.size + 1
        if raiseAt = some calls then .finish (.raise visitorMessage) none
        else
          let ending (answers : List (Answer Datum)) : Program Datum :=
            .finish (verdictAfter propagate answers (goesOn stopAfter calls)) (some answers)
          if onThread then
            .onThread (programs (some (id, value)) each fun answers => .finish .goOn (some answers))
              fun _ report => ending (report.getD [])
          else programs (some (id, value)) each ending)
      fun x => k (walkAnswer stopAfter.isSome true x)
  | .crew none => malformed (.named name)
  | .crew (some c) => crew (.named name) c
termination_by structural s => s

/-- The program of steps one after the other, their answers in order. -/
def programs (here : Here) : List (String × Action) → (List (Answer Datum) → Program Datum) → Program Datum
  | [], k => k []
  | (name, action) :: rest, k => program here name action fun a => programs here rest fun answers => k (a :: answers)
termination_by structural s => s

/-- The code attached to a value: it notes when it begins, and what its steps came to. -/
def hook (which : Hook) (payload : Datum) : Option (List (String × Action) × Bool) → Program Datum
  | none => .idle
  | some (steps, propagate) =>
    .note (.began which payload) (programs none steps fun answers =>
      .note (.ended answers) (.finish (verdictAfter propagate answers .goOn) none))
termination_by structural s => s

end

end Script
end SlotRegistry
