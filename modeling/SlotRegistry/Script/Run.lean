import SlotRegistry.Machine.Step
import SlotRegistry.Script.Program
/-!
# Running a script

Each step of a script runs to its end before the next one starts.  It is reported with its answer, with what the
listener was told and what attached code noted meanwhile, and with the size and cursor of the registry its handle then
belongs to.
-/
namespace SlotRegistry
namespace Script

/-- A line of a step's log. -/
inductive Line
  | event (e : Event)
  | note (n : Note Datum)

/-- The line of a journal entry.  Only what the first thread tells and notes is reported. -/
def line? : Entry Datum → Option Line
  | .event e _ thread _ => if thread = 0 then some (.event e) else none
  | .note n thread => if thread = 0 then some (.note n) else none
  | _ => none

structure StepReport where
  answer : Answer Datum
  log : List Line
  state : Option Glance

structure Report where
  steps : List StepReport
  final : List (String × List (Span Datum))

/-- How many machine steps a step of a script is given. -/
def budget : Nat := 1000000000000

/-- The answer of a program that has come to its end. -/
def answer (c : Config Datum) : Answer Datum :=
  match c.control, c.stack with
  | .running (.finish _ (some [a])), [] => a
  | _, _ => .unanswered

/-- Runs one step. -/
def runStep (w : World Datum) (s : Step) : StepReport × World Datum :=
  let before := w.journal.length
  let c := (Config.initial w (program none s.1 s.2 fun a => .finish .goOn (some [a]))).advance budget
  let w := c.world
  let log := (w.journal.take (w.journal.length - before)).reverse.filterMap line?
  let state := (w.cellOf? (.named s.1)).map fun (_, cell) => ⟨cell.registry.size, cell.registry.cursor⟩
  (⟨answer c, log, state⟩, w)

def runSteps (w : World Datum) : List Step → List StepReport × World Datum
  | [] => ([], w)
  | s :: rest =>
    let (report, w) := runStep w s
    let (reports, w) := runSteps w rest
    (report :: reports, w)

/-- The name of the handle with which a script starts. -/
def mainHandle : String := "m"

/-- A world with one empty registry, under the main handle. -/
def startWorld (v : Verbosity) : World Datum :=
  let (n, w) := (World.empty v).create
  w.bind (.named mainHandle) n

/-- The entries of every registry that has a named handle. -/
def finalRegistries (w : World Datum) : List (String × List (Span Datum)) :=
  w.handles.filterMap fun
    | (.named name, n) => (w.cells[n]?).map fun cell => (name, (cell.registry.map (·.value.payload)).spans)
    | _ => none

def run (v : Verbosity) (steps : List Step) : Report :=
  let (reports, w) := runSteps (startWorld v) steps
  ⟨reports, finalRegistries w⟩

end Script
end SlotRegistry
