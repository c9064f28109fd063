import Mathlib.Logic.Function.Iterate
import SlotRegistry.Proofs.Machine.Extent
import SlotRegistry.Proofs.Machine.Lending
/-!
# Deferral — the end of a released value comes after the release

A release that removes a value runs the value's code when all else is done: the id is free, detector and lock have been
left, and the listener has been told.  So it comes to the same whether the value brings its code along or the program
that releases it runs the code afterwards (`release_defers_destruction`).  The two runs are followed step by step: in
one the code runs inside the call, in the other it stands in front of what the program does next (`Inlined`), and the
call's hold on its cell is the one more owner of the first.
-/
namespace SlotRegistry

variable {α : Type}

/-- Goes on as told by the verdict where the program would finish. -/
def Program.andThen (k : Verdict → Program α) : Program α → Program α
  | .finish v _ => k v
  | .call c next => .call c fun x => (next x).andThen k
  | .note n next => .note n (next.andThen k)
  | .onThread body next => .onThread body fun v report => (next v report).andThen k

/-- What a call comes to that is over with its user code. -/
def Verdict.outcome : Verdict → Outcome α
  | .raise message => .raised message #[]
  | .goOn | .stop => .done

/-- The value with nothing to run when it is destroyed. -/
def Stored.inert (s : Stored α) : Stored α := { s with value := { s.value with onDestroy := .idle } }

/-- What waits goes on afterwards as `k` says. -/
def Frame.andThen (k : Verdict → Program α) : Frame α → Frame α
  | call scope next => call scope fun x => (next x).andThen k
  | join t next => join t fun v report => (next v report).andThen k

def Control.andThen (k : Verdict → Program α) : Control α → Control α
  | running p => running (p.andThen k)
  | replying x next => replying x fun y => (next y).andThen k
  | tearing n ahead x next => tearing n ahead x fun y => (next y).andThen k
  | blocked => blocked
  | aborted => aborted

namespace World

/-- All that a release of an occupied id does but running the code of its value. -/
def released (w : World α) (t : Thread) (ticket : Ticket) (cell : Cell α) (serial : Nat) : World α :=
  ((w.emit (.released ticket.id true) ticket.cell t .free).put ticket.cell
    (cell.withRegistry (cell.registry.remove ticket.id))).log (.destroyed serial)

variable {w : World α} {t : Thread} {ticket : Ticket} {cell cell' : Cell α} {serial : Nat}

/-- It does not matter what was under the id. -/
theorem released_put (h : cell'.withRegistry (cell'.registry.remove ticket.id) =
    cell.withRegistry (cell.registry.remove ticket.id)) :
    (w.put ticket.cell cell').released t ticket cell' serial = w.released t ticket cell serial := by
  have hemit : ∀ e lock, (w.put ticket.cell cell').emit e ticket.cell t lock =
      (w.emit e ticket.cell t lock).put ticket.cell cell' := by
    intro e lock
    unfold emit
    change (if w.verbosity.shows e then _ else _) = _
    split <;> rfl
  unfold released
  rw [hemit, h]
  unfold put
  simp only [List.set_set]

theorem getElem?_released (hcell : w.cells[ticket.cell]? = some cell) :
    (w.released t ticket cell serial).cells[ticket.cell]? =
      some (cell.withRegistry (cell.registry.remove ticket.id)) := by
  have hcells : (w.emit (.released ticket.id true) ticket.cell t .free).cells = w.cells := by
    unfold emit
    split <;> rfl
  change ((w.emit (.released ticket.id true) ticket.cell t .free).cells.set ticket.cell _)[ticket.cell]? = _
  rw [hcells]
  exact List.getElem?_set_self (List.getElem?_eq_some_iff.1 hcell).1

end World

namespace Config

/-- The same moments of some code: above the frame `f`, and, without that frame, as a part of a program that goes on
as `k` says.  The lowest call or thread that the code waits for is the one that knows what comes next. -/
inductive Inlining (k : Verdict → Program α) (f : Frame α) (base : List (Frame α)) :
    Control α → List (Frame α) → Control α → List (Frame α) → Prop
  | here (control : Control α) : Inlining k f base control (f :: base) (control.andThen k) base
  | above (control : Control α) (above : List (Frame α)) (g : Frame α) :
    Inlining k f base control (above ++ g :: f :: base) control (above ++ g.andThen k :: base)

/-- Code runs above the frame `f`, and as a part of the program below it.  The worlds are the same, but for one more
owner of the cell `n`. -/
structure Inlined (n : CellId) (k : Verdict → Program α) (f : Frame α) (base : List (Frame α)) (c d : Config α) :
    Prop where
  world : c.world = d.world.lend n
  thread : c.thread = d.thread
  course : Inlining k f base c.control c.stack d.control d.stack

/-- What a call comes to, in the moment in which it is over. -/
def reply? (c : Config α) : Option (Outcome α) :=
  match c.control with
  | .replying x _ => some x
  | _ => none

/-- The code above a frame has ended. -/
def HasEnded (c : Config α) (f : Frame α) (base : List (Frame α)) (v : Verdict) : Prop :=
  ∃ report, c.control = .running (.finish v report) ∧ c.stack = f :: base

variable {n : CellId} {k : Verdict → Program α} {f g : Frame α} {base above : List (Frame α)} {c d : Config α}
  {t : Thread} {w w' : World α} {control control' : Control α} {act : Act α} {next : Outcome α → Program α}
  {r : Came α} {v : Verdict}

/-- The two show the same: registries with cursors, locks and detectors, the journal, and what the calls come to. -/
theorem Inlined.shows (h : Inlined n k f base c d) :
    c.world.cores = d.world.cores ∧ c.world.journal = d.world.journal ∧ c.reply? = d.reply? := by
  obtain ⟨v, t, control, stack⟩ := c
  obtain ⟨w, u, control', stack'⟩ := d
  obtain ⟨hworld, -, hcourse⟩ := h
  dsimp only at hworld hcourse ⊢
  subst hworld
  refine ⟨World.cores_lend, rfl, ?_⟩
  cases hcourse with
  | here => cases control <;> rfl
  | above above g => rfl

/-! ### One step -/

theorem world_of_came {stack : List (Frame α)} : (r.config w t stack next).world = w := by cases r <;> rfl

/-- A call of the code itself comes to the same. -/
theorem inlined_came_here : Inlined n k f base (r.config (w.lend n) t (f :: base) next)
    (r.config w t base fun x => (next x).andThen k) := by
  cases r with
  | replies x => exact ⟨rfl, rfl, .here (.replying x next)⟩
  | enters p s => exact ⟨rfl, rfl, .above (.running p) [] (.call s next)⟩
  | clears m ahead x => exact ⟨rfl, rfl, .here (.tearing m ahead x next)⟩
  | waits => exact ⟨rfl, rfl, .here .blocked⟩
  | breaks => exact ⟨rfl, rfl, .here .aborted⟩

/-- A call that was made above one of the code comes to the same. -/
theorem inlined_came_above : Inlined n k f base (r.config (w.lend n) t (above ++ g :: f :: base) next)
    (r.config w t (above ++ g.andThen k :: base) next) := by
  cases r with
  | replies x => exact ⟨rfl, rfl, .above (.replying x next) above g⟩
  | enters p s => exact ⟨rfl, rfl, .above (.running p) (.call s next :: above) g⟩
  | clears m ahead x => exact ⟨rfl, rfl, .above (.tearing m ahead x next) above g⟩
  | waits => exact ⟨rfl, rfl, .above .blocked above g⟩
  | breaks => exact ⟨rfl, rfl, .above .aborted above g⟩

theorem Agrees.inlined_here (ha : Agrees n t w act act)
    (alive : ¬ (act ⟨w, t, control', base⟩ fun x => (next x).andThen k).world.Dead n) :
    Inlined n k f base (act ⟨w.lend n, t, control, f :: base⟩ next)
      (act ⟨w, t, control', base⟩ fun x => (next x).andThen k) := by
  obtain ⟨w', r, hcomes, hcomes'⟩ := ha
  rw [hcomes, world_of_came] at alive
  rw [hcomes, hcomes' alive]
  exact inlined_came_here

theorem Agrees.inlined_above (ha : Agrees n t w act act)
    (alive : ¬ (act ⟨w, t, control', above ++ g.andThen k :: base⟩ next).world.Dead n) :
    Inlined n k f base (act ⟨w.lend n, t, control, above ++ g :: f :: base⟩ next)
      (act ⟨w, t, control', above ++ g.andThen k :: base⟩ next) := by
  obtain ⟨w', r, hcomes, hcomes'⟩ := ha
  rw [hcomes, world_of_came] at alive
  rw [hcomes, hcomes' alive]
  exact inlined_came_above

/-- **The two runs of the code stay together, step by step, until the code ends.** -/
theorem inlined_step (h : Inlined n k f base c d) (going : ∀ v, ¬ c.HasEnded f base v)
    (hn : n < d.world.cells.length) (alive : ¬ d.step.world.Dead n) : Inlined n k f base c.step d.step := by
  obtain ⟨v, t, control, stack⟩ := c
  obtain ⟨w, u, control', stack'⟩ := d
  obtain ⟨hworld, hthread, hcourse⟩ := h
  dsimp only at hworld hthread hcourse hn
  subst hworld hthread
  cases hcourse with
  | here =>
    cases control with
    | running p =>
      cases p with
      | finish v report => exact absurd ⟨report, rfl, rfl⟩ (going v)
      | call call next => exact (agrees_perform hn call).inlined_here alive
      | note m p => exact ⟨rfl, rfl, .here (.running p)⟩
      | onThread body next => exact ⟨rfl, rfl, .above (.running body) [] (.join t next)⟩
    | replying x next => exact ⟨rfl, rfl, .here (.running (next x))⟩
    | tearing m ahead x next => exact agrees_tearOn.inlined_here alive
    | blocked => exact ⟨rfl, rfl, .here .blocked⟩
    | aborted => exact ⟨rfl, rfl, .here .aborted⟩
  | above above g =>
    cases control with
    | running p =>
      cases p with
      | finish v report =>
        cases above with
        | nil =>
          cases g with
          | call s next => exact agrees_resume.inlined_here alive
          | join u next => exact ⟨rfl, rfl, .here (.running (next v report))⟩
        | cons top above =>
          cases top with
          | call s next => exact agrees_resume.inlined_above alive
          | join u next => exact ⟨rfl, rfl, .above (.running (next v report)) above g⟩
      | call call next => exact (agrees_perform hn call).inlined_above alive
      | note m p => exact ⟨rfl, rfl, .above (.running p) above g⟩
      | onThread body next => exact ⟨rfl, rfl, .above (.running body) (.join t next :: above) g⟩
    | replying x next => exact ⟨rfl, rfl, .above (.running (next x)) above g⟩
    | tearing m ahead x next => exact agrees_tearOn.inlined_above alive
    | blocked => exact ⟨rfl, rfl, .above .blocked above g⟩
    | aborted => exact ⟨rfl, rfl, .above .aborted above g⟩

/-! ### The whole code -/

theorem length_cells_iterate (j : Nat) : d.world.cells.length ≤ (step^[j] d).world.cells.length := by
  induction j with
  | zero => exact Nat.le_refl _
  | succ j ih =>
    rw [Function.iterate_succ_apply']
    exact Nat.le_trans ih (length_cells_le (.tail (.refl _)))

/-- **The two runs stay together up to the end of the code**, if the code has one, as long as the cell is alive. -/
theorem inlined_run (h : Inlined n k f base c d) (hn : n < d.world.cells.length) :
    ∀ j, (∀ i ≤ j, ¬ (step^[i] d).world.Dead n) →
      ∃ m ≤ j, (∀ i ≤ m, Inlined n k f base (step^[i] c) (step^[i] d)) ∧
        (m = j ∨ ∃ v, (step^[m] c).HasEnded f base v)
  | 0, _ => ⟨0, Nat.le_refl _, fun i hi => by rw [Nat.le_zero.1 hi]; exact h, .inl rfl⟩
  | j + 1, alive => by
    obtain ⟨m, hm, hinlined, hlast⟩ := inlined_run h hn j fun i hi => alive i (Nat.le_succ_of_le hi)
    by_cases hended : ∃ v, (step^[m] c).HasEnded f base v
    · exact ⟨m, Nat.le_succ_of_le hm, hinlined, .inr hended⟩
    have hmj : m = j := hlast.resolve_right hended
    subst hmj
    have halive : ¬ (step^[m] d).step.world.Dead n := by
      rw [← Function.iterate_succ_apply' step]
      exact alive (m + 1) (Nat.le_refl _)
    have hlength : n < (step^[m] d).world.cells.length := Nat.lt_of_lt_of_le hn (length_cells_iterate m)
    have hnext := inlined_step (hinlined m (Nat.le_refl _)) (fun v hv => hended ⟨v, hv⟩) hlength halive
    refine ⟨m + 1, Nat.le_refl _, fun i hi => ?_, .inl rfl⟩
    rcases Nat.le_succ_iff.1 hi with hle | rfl
    · exact hinlined i hle
    · rw [Function.iterate_succ_apply', Function.iterate_succ_apply']
      exact hnext

/-! ### The end of the code -/

theorem resume_discarding {report : Option (List (Answer α))} :
    c.resume (.discarding n) next v report = c.letGo n v.outcome next := by cases v <;> rfl

/-- A call that lets go of a cell that has other owners leaves the world as if it had never owned it. -/
theorem letGo_lend {x : Outcome α} {stack : List (Frame α)} (hn : n < w.cells.length) (alive : ¬ w.Dead n) :
    letGo ⟨w.lend n, t, control, stack⟩ n x next = ⟨w, t, .replying x next, stack⟩ := by
  have hc : w.cells[n]? = some w.cells[n] := List.getElem?_eq_getElem hn
  have hc' : (w.lend n).cells[n]? = some w.cells[n].addOwner := Cell.lent_self ▸ World.lend_of_some hc
  have hothers : w.cells[n].addOwner.owners ≠ 1 := fun h => alive ⟨w.cells[n], hc, Nat.succ.inj h⟩
  exact (letGo_of_others (c := ⟨w.lend n, t, control, stack⟩) hc' hothers).trans
    (congrArg (fun w => (⟨w, t, .replying x next, stack⟩ : Config α)) (World.lend_put_self hc))

/-- **When the code has ended, the release is told how, and then the two runs are one.** -/
theorem joins_of_inlined (h : Inlined n (fun v => next v.outcome) (.call (.discarding n) next) base c d)
    (hended : c.HasEnded (.call (.discarding n) next) base v) (hn : n < d.world.cells.length)
    (alive : ¬ d.world.Dead n) :
    c.step = ⟨d.world, d.thread, .replying v.outcome next, base⟩ ∧ c.step.step = d := by
  obtain ⟨z, t, control, stack⟩ := c
  obtain ⟨w, u, control', stack'⟩ := d
  obtain ⟨hworld, hthread, hcourse⟩ := h
  obtain ⟨report, hcontrol, hstack⟩ := hended
  dsimp only at hworld hthread hcourse hcontrol hstack hn alive ⊢
  subst hworld hthread hcontrol
  have hstep : step ⟨w.lend n, t, .running (.finish v report), .call (.discarding n) next :: base⟩ =
      ⟨w, t, .replying v.outcome next, base⟩ :=
    (resume_discarding (c := ⟨w.lend n, t, .running (.finish v report), base⟩)).trans (letGo_lend hn alive)
  generalize hcontrol : Control.running (.finish v report) = control at hcourse hstep ⊢
  cases hcourse with
  | here =>
    subst hcontrol
    exact ⟨hstep, by rw [hstep]; rfl⟩
  | above above g =>
    have hlength := congrArg List.length hstack
    simp only [List.length_append, List.length_cons] at hlength
    omega

/-! ### A release and what it does besides -/

/-- The same moment, but the value has nothing to run when it is destroyed: the program that releases it runs the code
afterwards, and goes on as it would with what the release came to. -/
def runsAfterwards (c : Config α) (ticket : Ticket) (cell : Cell α) (s : Stored α) (next : Outcome α → Program α) :
    Config α where
  world := c.world.put ticket.cell (cell.withRegistry (cell.registry.withSlot ticket.id (.occupied s.inert)))
  thread := c.thread
  control := .running (.call (.release ticket) fun _ => s.value.onDestroy.andThen fun v => next v.outcome)
  stack := c.stack

variable {ticket : Ticket} {cell : Cell α} {s : Stored α}

theorem step_of_release (hcontrol : c.control = .running (.call (.release ticket) next))
    (hcell : c.world.cells[ticket.cell]? = some cell) (live : cell.owners ≠ 0)
    (outside : c.thread ∉ cell.detector.inside) (hfree : cell.lock = .free)
    (hslot : cell.registry.slot? ticket.id = some (.occupied s)) :
    c.step = ⟨(c.world.released c.thread ticket cell s.serial).lend ticket.cell, c.thread,
      .running s.value.onDestroy, .call (.discarding ticket.cell) next :: c.stack⟩ := by
  rw [step_of_call hcontrol, perform, release_of_occupied hcell live outside hfree hslot]
  have hworld : (c.world.released c.thread ticket cell s.serial).lend ticket.cell =
      ((c.world.emit (.released ticket.id true) ticket.cell c.thread .free).put ticket.cell
        (cell.withRegistry (cell.registry.remove ticket.id)).addOwner).log (.destroyed s.serial) :=
    congrArg (fun w : World α => w.log (.destroyed s.serial)) World.lend_put_same
  rw [hworld]
  rfl

/-- The code runs first in the call, and then in the program, when the rest of the release is done. -/
theorem step_of_release_afterwards (hcell : c.world.cells[ticket.cell]? = some cell) (live : cell.owners ≠ 0)
    (outside : c.thread ∉ cell.detector.inside) (hfree : cell.lock = .free) :
    (c.runsAfterwards ticket cell s next).step.step.step = ⟨c.world.released c.thread ticket cell s.serial, c.thread,
      .running (s.value.onDestroy.andThen fun v => next v.outcome), c.stack⟩ := by
  have hcell' : (c.runsAfterwards ticket cell s next).world.cells[ticket.cell]? =
      some (cell.withRegistry (cell.registry.withSlot ticket.id (.occupied s.inert))) :=
    List.getElem?_set_self (List.getElem?_eq_some_iff.1 hcell).1
  have hslot : (cell.registry.withSlot ticket.id (.occupied s.inert)).slot? ticket.id = some (.occupied s.inert) := by
    rw [Registry.slot?_withSlot, if_pos rfl]
  have hreleased : (c.runsAfterwards ticket cell s next).world.released c.thread ticket
      (cell.withRegistry (cell.registry.withSlot ticket.id (.occupied s.inert))) s.inert.serial =
        c.world.released c.thread ticket cell s.serial :=
    World.released_put (congrArg cell.withRegistry Registry.remove_withSlot)
  have hlast : (c.world.released c.thread ticket cell s.serial).cells[ticket.cell]? =
      some (cell.withRegistry (cell.registry.remove ticket.id)) := World.getElem?_released hcell
  have hfirst := step_of_release (c := c.runsAfterwards ticket cell s next) (s := s.inert) rfl hcell' live outside hfree
    hslot
  rw [show (c.runsAfterwards ticket cell s next).thread = c.thread from rfl, hreleased] at hfirst
  rw [hfirst]
  have hsecond : letGo ⟨(c.world.released c.thread ticket cell s.serial).lend ticket.cell, c.thread, .running .idle,
      c.stack⟩ ticket.cell .done (fun _ => s.value.onDestroy.andThen fun v => next v.outcome) =
        ⟨c.world.released c.thread ticket cell s.serial, c.thread,
          .replying .done fun _ => s.value.onDestroy.andThen fun v => next v.outcome, c.stack⟩ :=
    letGo_lend (List.getElem?_eq_some_iff.1 hlast).1 (World.not_dead_of_getElem? hlast live)
  exact congrArg step hsecond

/-- With the code about to run, the two runs are together. -/
theorem inlined_release (hcontrol : c.control = .running (.call (.release ticket) next))
    (hcell : c.world.cells[ticket.cell]? = some cell) (live : cell.owners ≠ 0)
    (outside : c.thread ∉ cell.detector.inside) (hfree : cell.lock = .free)
    (hslot : cell.registry.slot? ticket.id = some (.occupied s)) :
    Inlined ticket.cell (fun v => next v.outcome) (.call (.discarding ticket.cell) next) c.stack c.step
      (c.runsAfterwards ticket cell s next).step.step.step := by
  rw [step_of_release hcontrol hcell live outside hfree hslot,
    step_of_release_afterwards hcell live outside hfree]
  exact ⟨rfl, rfl, .here (.running s.value.onDestroy)⟩

/-- With the lock held by others, both wait. -/
theorem block_release (hcontrol : c.control = .running (.call (.release ticket) next))
    (hcell : c.world.cells[ticket.cell]? = some cell) (live : cell.owners ≠ 0)
    (outside : c.thread ∉ cell.detector.inside) (hheld : cell.lock ≠ .free) :
    c.step = c.block ∧
      (c.runsAfterwards ticket cell s next).step = (c.runsAfterwards ticket cell s next).block := by
  constructor
  · rw [step_of_call hcontrol]
    exact release_of_held hcell live outside hheld
  · have hcell' : (c.runsAfterwards ticket cell s next).world.cells[ticket.cell]? =
        some (cell.withRegistry (cell.registry.withSlot ticket.id (.occupied s.inert))) :=
      List.getElem?_set_self (List.getElem?_eq_some_iff.1 hcell).1
    exact release_of_held (c := c.runsAfterwards ticket cell s next) hcell' live outside hheld

/-- **A release defers the end of its value**: a run in which the value of the id brings its code along, and one in
which the value has no code and the program runs it after the release, show the same registries, cursors, locks, detectors,
journal and replies, step by step (the release holds on to its cell meanwhile), until the code has ended; then the
release is told how, a raised message becoming its own, and the two runs are one.  That is so as long as the cell has an
owner when the code runs as a part of the program.  While the lock is held by others, both wait. -/
theorem release_defers_destruction {d : Config α} (hcontrol : c.control = .running (.call (.release ticket) next))
    (hcell : c.world.cells[ticket.cell]? = some cell) (live : cell.owners ≠ 0)
    (outside : c.thread ∉ cell.detector.inside) (hslot : cell.registry.slot? ticket.id = some (.occupied s))
    (hd : d = c.runsAfterwards ticket cell s next) :
    (cell.lock ≠ .free → c.step = c.block ∧ d.step = d.block) ∧
    (cell.lock = .free → ∀ j, (∀ i ≤ j, ¬ (step^[i + 3] d).world.Dead ticket.cell) →
      ∃ m ≤ j,
        (∀ i ≤ m, Inlined ticket.cell (fun v => next v.outcome) (.call (.discarding ticket.cell) next) c.stack
            (step^[i + 1] c) (step^[i + 3] d) ∧
          (step^[i + 1] c).world.cores = (step^[i + 3] d).world.cores ∧
          (step^[i + 1] c).world.journal = (step^[i + 3] d).world.journal ∧
          (step^[i + 1] c).reply? = (step^[i + 3] d).reply?) ∧
        (m < j → ∃ v, (step^[m + 1] c).HasEnded (.call (.discarding ticket.cell) next) c.stack v) ∧
        ∀ v, (step^[m + 1] c).HasEnded (.call (.discarding ticket.cell) next) c.stack v →
          (step^[m + 2] c).control = .replying v.outcome next ∧ ∀ i, step^[i + (m + 3)] c = step^[i + (m + 3)] d) := by
  subst hd
  refine ⟨block_release hcontrol hcell live outside, fun hfree j alive => ?_⟩
  have hstart := inlined_release hcontrol hcell live outside hfree hslot
  have hn : ticket.cell < (c.runsAfterwards ticket cell s next).step.step.step.world.cells.length := by
    rw [step_of_release_afterwards hcell live outside hfree]
    exact (List.getElem?_eq_some_iff.1 (World.getElem?_released hcell)).1
  -- `step^[i + 3] d` and `step^[i] d.step.step.step` are the same by definition
  obtain ⟨m, hm, hinlined, hended⟩ := inlined_run hstart hn j alive
  refine ⟨m, hm, fun i hi => ⟨hinlined i hi, (hinlined i hi).shows⟩,
    fun hlt => hended.resolve_left (Nat.ne_of_lt hlt), fun v hv => ?_⟩
  obtain ⟨hreplies, hjoins⟩ := joins_of_inlined (hinlined m (Nat.le_refl _)) hv
    (Nat.lt_of_lt_of_le hn (length_cells_iterate m)) (alive m hm)
  have hreplied : step^[m + 2] c = (step^[m + 1] c).step := Function.iterate_succ_apply' step (m + 1) c
  have hjoined : step^[m + 3] c = (step^[m + 1] c).step.step := by
    rw [Function.iterate_succ_apply' step (m + 2) c, hreplied]
  refine ⟨?_, fun i => ?_⟩
  · rw [hreplied]
    exact congrArg control hreplies
  · rw [Function.iterate_add_apply, Function.iterate_add_apply step i (m + 3), hjoined]
    exact congrArg step^[i] hjoins

/-- The code that destroys a released value claims the next id and breaks off. -/
def claimsAndRaises : Program String := .call (.reserve (.named "a")) fun _ => .finish (.raise "over") none

def releasesIt : Program String :=
  .call (.create (.named "a")) fun _ => .call (.add (.named "a") 1 ⟨"x", claimsAndRaises, .idle⟩) fun _ =>
    .call (.release ⟨1, 0⟩) fun _ => .idle

theorem release_defers_destruction_of_a_claim :
    ∃ (c d : Config String) (cell : Cell String), Reaches (initial (World.empty .trace) releasesIt) c ∧
      d = c.runsAfterwards ⟨1, 0⟩ cell ⟨0, ⟨"x", claimsAndRaises, .idle⟩⟩ (fun _ => .idle) ∧
      (step^[4] c).control = .replying (.raised "over" #[]) (fun _ => .idle) ∧ step^[5] c = step^[5] d := by
  have hcontrol : (advance 4 (initial (World.empty .trace) releasesIt)).control =
      .running (.call (.release ⟨1, 0⟩) fun _ => .idle) := rfl
  obtain ⟨-, hfree⟩ := release_defers_destruction hcontrol rfl (Nat.succ_ne_zero _) List.not_mem_nil rfl rfl
  obtain ⟨m, hm, -, hgoing, hended⟩ := hfree rfl 2 fun i hi => match i, hi with
    | 0, _ | 1, _ | 2, _ => World.not_dead_of_getElem? rfl (Nat.succ_ne_zero _)
  have hlast : m = 2 := by
    match m, hm with
    | 0, _ =>
      obtain ⟨v, report, hcontrol, -⟩ := hgoing (by decide)
      cases hcontrol
    | 1, _ =>
      obtain ⟨v, report, hcontrol, -⟩ := hgoing (by decide)
      cases hcontrol
    | 2, _ => rfl
  subst hlast
  obtain ⟨hreplies, hjoins⟩ := hended (.raise "over") ⟨none, rfl, rfl⟩
  exact ⟨_, _, _, reaches_advance 4 _, rfl, hreplies, hjoins 0⟩

end Config

end SlotRegistry
