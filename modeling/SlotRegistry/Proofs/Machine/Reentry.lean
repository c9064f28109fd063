import SlotRegistry.Proofs.Machine.Pool
/-!
# Reentry — when a call is turned away

A call on a cell is turned away exactly when its thread has an unfinished call on that cell whose visitor, copying or
refused value is running.  A call that enters no cell is never turned away, and a call that is turned away changes no
registry, lock or detector.
-/
namespace SlotRegistry

variable {α : Type}

/-- The cell of a ticket, none when it has no owners. -/
def World.living? (w : World α) (ticket : Ticket) : Option CellId :=
  (w.cells[ticket.cell]?).bind fun cell => if cell.owners = 0 then none else some ticket.cell

/-- The cell a call enters: its thread registers there and takes the lock.  A release enters a cell that has owners. -/
def Call.entered? (w : World α) : Call α (Program α) → Option CellId
  | .reserve h | .add h _ _ | .set h _ _ | .pop h _ | .get h _ | .contains h _ | .size h | .isEmpty h | .cursor h
  | .walk h _ => (w.cellOf? h).map Prod.fst
  | .release ticket => w.living? ticket
  | .create _ | .share _ _ | .hold _ | .giveUp _ | .inspect _ | .dispose _ | .shelve _ | .shelved _ | .unshelve _ => none

/-- Inside the cell `n`: a walk runs its visitor, a value is copied, or a value that was refused is destroyed. -/
def Scope.IsInside (n : CellId) : Scope α → Prop
  | walking m _ _ _ _ _ => m = n
  | copying m _ => m = n
  | rejecting m _ => m = n
  | bouncing _ | discarding _ | tearing _ _ _ | disposing => False

theorem Scope.isInside_iff {n : CellId} {s : Scope α} :
    s.IsInside n ↔ ∃ k, k ≠ .owning ∧ s.stake = some (n, k) := by
  cases s <;> simp [IsInside, stake]

theorem mem_entered_stakesAt {n : CellId} {t u : Thread} {stack : List (Frame α)} :
    u ∈ entered (stakesAt n t stack) ↔ ∃ s, (u, s) ∈ unfinished t stack ∧ s.IsInside n := by
  rw [mem_entered]
  constructor
  · rintro ⟨k, hk, hmem⟩
    obtain ⟨s, hs, hstake⟩ := mem_stakesAt.1 hmem
    exact ⟨s, hs, Scope.isInside_iff.2 ⟨k, hk, hstake⟩⟩
  · rintro ⟨s, hs, hin⟩
    obtain ⟨k, hk, hstake⟩ := Scope.isInside_iff.1 hin
    exact ⟨k, hk, mem_stakesAt.2 ⟨s, hs, hstake⟩⟩

/-- A call made above `base` has been turned away: it breaks off with the message, or is about to, once the value it was
to store is destroyed. -/
def TurnedAway (control : Control α) (stack base : List (Frame α)) (next : Outcome α → Program α) : Prop :=
  (control = .replying (.raised reentryMessage #[]) next ∧ stack = base) ∨
  ∃ n p, control = .running p ∧ stack = .call (.bouncing n) next :: base

/-- What a cell is apart from its owners. -/
def Cell.core (cell : Cell α) : Registry (Stored α) × Lock × Detector := (cell.registry, cell.lock, cell.detector)

/-- The registries, locks and detectors of all cells. -/
def World.cores (w : World α) : List (Registry (Stored α) × Lock × Detector) := w.cells.map Cell.core

theorem World.cores_put {w : World α} {n : CellId} {cell cell' : Cell α} (hc : w.cells[n]? = some cell)
    (h : cell'.core = cell.core) : (w.put n cell').cores = w.cores := by
  obtain ⟨hn, rfl⟩ := List.getElem?_eq_some_iff.1 hc
  unfold cores put
  rw [List.map_set, h, ← List.getElem_map Cell.core (h := by simpa using hn)]
  exact List.set_getElem_self _

namespace Config

variable {c d : Config α} {cell : Cell α} {n : CellId} {id : SlotId} {x : Outcome α} {next : Outcome α → Program α}
  {base : List (Frame α)}

/-- Whether a configuration shows a call turned away. -/
abbrev turnedAway (d : Config α) (base : List (Frame α)) (next : Outcome α → Program α) : Prop :=
  TurnedAway d.control d.stack base next

/-- With the stack as it was, a call is turned away only by replying so. -/
theorem not_turnedAway_of_stack (hs : d.stack = base) (hc : d.control ≠ .replying (.raised reentryMessage #[]) next) :
    ¬ d.turnedAway base next := by
  rintro (⟨h, -⟩ | ⟨n, p, -, h⟩)
  · exact hc h
  · rw [hs] at h
    exact List.cons_ne_self _ _ h.symm

theorem not_turnedAway_of_push {s : Scope α} {nx : Outcome α → Program α} (hs : d.stack = .call s nx :: base)
    (hb : ∀ n, s ≠ .bouncing n) : ¬ d.turnedAway base next := by
  rintro (⟨-, h⟩ | ⟨n, p, -, h⟩)
  · rw [hs] at h
    exact List.cons_ne_self _ _ h
  · rw [hs] at h
    simp only [List.cons.injEq, Frame.call.injEq] at h
    exact hb n h.1.1

theorem not_turnedAway_block : ¬ c.block.turnedAway c.stack next :=
  not_turnedAway_of_stack rfl (fun h => by cases h)

theorem not_turnedAway_reply (hs : d.stack = base) (hx : x ≠ .raised reentryMessage #[]) {nx : Outcome α → Program α} :
    ¬ (d.reply x nx).turnedAway base next :=
  not_turnedAway_of_stack hs (fun h => by cases h; exact hx rfl)

theorem not_turnedAway_letGo (hs : c.stack = base) (hx : x ≠ .raised reentryMessage #[]) :
    ¬ (c.letGo n x next).turnedAway base next := by
  unfold letGo
  split
  · exact not_turnedAway_reply hs hx
  · split
    · exact not_turnedAway_of_stack hs (fun h => by cases h)
    · exact not_turnedAway_reply hs hx

/-- A call on a cell is judged rightly: it is turned away exactly when its thread is inside, and then no registry, lock
or detector has changed. -/
structure Judged (c : Config α) (cell : Cell α) (next : Outcome α → Program α) (d : Config α) : Prop where
  turned_iff : d.turnedAway c.stack next ↔ c.thread ∈ cell.detector.inside
  cores : c.thread ∈ cell.detector.inside → d.world.cores = c.world.cores

theorem judged_of_inside (hin : c.thread ∈ cell.detector.inside) (h : d.turnedAway c.stack next)
    (hc : d.world.cores = c.world.cores) : Judged c cell next d := ⟨iff_of_true h hin, fun _ => hc⟩

theorem judged_of_outside (hin : c.thread ∉ cell.detector.inside) (h : ¬ d.turnedAway c.stack next) :
    Judged c cell next d := ⟨iff_of_false h hin, fun hmem => absurd hmem hin⟩

theorem judged_refuseEntry (hin : c.thread ∈ cell.detector.inside) : Judged c cell next (c.refuseEntry next) :=
  judged_of_inside hin (.inl ⟨rfl, rfl⟩) rfl

theorem judged_writing {inside : Cell α → Config α} (h : ∀ cell, ¬ (inside cell).turnedAway c.stack next) :
    Judged c cell next (c.writing cell (c.refuseEntry next) inside) := by
  rcases writing_cases c cell (c.refuseEntry next) inside with ⟨hin, hw⟩ | ⟨hin, -, hw⟩ | ⟨hin, -, hw⟩
  · rw [hw]; exact judged_refuseEntry hin
  · rw [hw]; exact judged_of_outside hin not_turnedAway_block
  · rw [hw]; exact judged_of_outside hin (h _)

theorem judged_reading {inside : Cell α → Config α} (h : ∀ cell, ¬ (inside cell).turnedAway c.stack next) :
    Judged c cell next (c.reading cell (c.refuseEntry next) inside) := by
  rcases reading_cases c cell (c.refuseEntry next) inside with ⟨hin, hw⟩ | ⟨hin, -, hw⟩ | ⟨hin, readers, -, hw⟩
  · rw [hw]; exact judged_refuseEntry hin
  · rw [hw]; exact judged_of_outside hin not_turnedAway_block
  · rw [hw]; exact judged_of_outside hin (h _)

theorem judged_reserve : Judged c cell next (c.reserve n cell next) := by
  refine judged_writing (fun cell => ?_)
  split
  · exact not_turnedAway_reply rfl (fun h => by cases h)
  · dsimp only
    split
    · split
      · exact not_turnedAway_block
      · exact not_turnedAway_reply rfl (fun h => by cases h)
    · exact not_turnedAway_reply rfl (fun h => by cases h)

theorem judged_store {v : Value α (Program α)}
    {bind : Registry (Stored α) → SlotId → Stored α → Except Refusal (Registry (Stored α))} {event : Event}
    (hc : c.world.cells[n]? = some cell) (hx : x ≠ .raised reentryMessage #[]) :
    Judged c cell next (c.store n cell id v bind event x next) := by
  by_cases hin : c.thread ∈ cell.detector.inside
  · rw [store_of_inside hin]
    exact judged_of_inside hin (.inr ⟨n, _, rfl, rfl⟩) (World.cores_put (w := (c.world.handOver v n id).2) hc rfl)
  refine judged_of_outside hin ?_
  by_cases hl : cell.lock = .free
  · cases hr : bind cell.registry id ⟨c.world.handed, v⟩ with
    | ok r => rw [store_of_ok hin hl hr]; exact not_turnedAway_reply rfl hx
    | error why => rw [store_of_error hin hl hr]; exact not_turnedAway_of_push rfl (fun _ h => by cases h)
  · rw [store_of_held hin hl]
    exact not_turnedAway_of_stack rfl (fun h => by cases h)

theorem judged_pop : Judged c cell next (c.pop n cell id next) := by
  refine judged_writing (fun cell => ?_)
  split
  · exact not_turnedAway_reply rfl (fun h => by cases h)
  · exact not_turnedAway_reply rfl (fun h => by cases h)

theorem judged_query {answer : Registry (Stored α) → Outcome α} (ha : ∀ r, answer r ≠ .raised reentryMessage #[]) :
    Judged c cell next (c.query n cell answer next) :=
  judged_reading (fun _ => not_turnedAway_reply rfl (ha _))

theorem judged_get : Judged c cell next (c.get n cell id next) := by
  refine judged_reading (fun cell => ?_)
  split
  · exact not_turnedAway_reply rfl (fun h => by cases h)
  · exact not_turnedAway_of_push rfl (fun _ h => by cases h)

theorem not_turnedAway_endReading (hs : c.stack = base) (hx : x ≠ .raised reentryMessage #[]) :
    ¬ (c.endReading n x next).turnedAway base next := by
  unfold endReading
  split
  · exact not_turnedAway_reply hs hx
  · exact not_turnedAway_letGo hs hx

theorem judged_walk {visit : Array (Visit α) → SlotId → Option α → Program α} :
    Judged c cell next (c.walk n cell visit next) := by
  refine judged_reading (fun cell => ?_)
  unfold walkOn
  split
  · exact not_turnedAway_endReading rfl (fun h => by cases h)
  · exact not_turnedAway_of_push rfl (fun _ h => by cases h)

theorem judged_release {ticket : Ticket} (hc : c.world.cells[ticket.cell]? = some cell) (ho : cell.owners ≠ 0) :
    Judged c cell next (c.release ticket next) := by
  by_cases hin : c.thread ∈ cell.detector.inside
  · rw [release_of_inside hc ho hin]
    exact judged_refuseEntry hin
  refine judged_of_outside hin ?_
  by_cases hl : cell.lock = .free
  · by_cases hs : ∃ v, cell.registry.slot? ticket.id = some (.occupied v)
    · obtain ⟨v, hs⟩ := hs
      rw [release_of_occupied hc ho hin hl hs]
      exact not_turnedAway_of_push rfl (fun _ h => by cases h)
    · rw [release_of_not_occupied hc ho hin hl (fun v hv => hs ⟨v, hv⟩)]
      exact not_turnedAway_reply rfl (fun h => by cases h)
  · rw [release_of_held hc ho hin hl]
    exact not_turnedAway_block

/-! ### Any call -/

/-- A call is judged rightly by the cell it enters.  One that enters no cell is not turned away. -/
def JudgedBy (c : Config α) (next : Outcome α → Program α) (d : Config α) : Option CellId → Prop
  | none => ¬ d.turnedAway c.stack next
  | some n => Judged c (c.ledger.cellAt n) next d

theorem judgedBy_withCell {h : Handle} {act : CellId → Cell α → Config α}
    (hact : ∀ n cell, c.world.cells[n]? = some cell → Judged c cell next (act n cell)) :
    c.JudgedBy next (c.withCell h next act) ((c.world.cellOf? h).map Prod.fst) := by
  unfold withCell
  split
  · rename_i hw
    rw [hw]
    exact not_turnedAway_reply rfl (fun h => by cases h)
  · rename_i n cell hw
    obtain ⟨-, hc⟩ := cellOf?_eq_some hw
    rw [hw]
    change Judged c (c.ledger.cellAt n) next (act n cell)
    rw [Ledger.cellAt_of_getElem? hc]
    exact hact n cell hc

theorem not_turnedAway_withCell {h : Handle} {act : CellId → Cell α → Config α}
    (hact : ∀ n cell, ¬ (act n cell).turnedAway c.stack next) : ¬ (c.withCell h next act).turnedAway c.stack next := by
  unfold withCell
  split
  · exact not_turnedAway_reply rfl (fun h => by cases h)
  · exact hact _ _

theorem not_turnedAway_rebind {h : Handle} (hs : c.stack = base) (hx : x ≠ .raised reentryMessage #[]) :
    ¬ (c.rebind h n x next).turnedAway base next := by
  unfold rebind
  dsimp only
  split
  · exact not_turnedAway_reply hs hx
  · exact not_turnedAway_letGo hs hx

theorem not_turnedAway_dispose {serial : Nat} : ¬ (c.dispose serial next).turnedAway c.stack next := by
  unfold dispose
  split
  · exact not_turnedAway_reply rfl (fun h => by cases h)
  · exact not_turnedAway_of_push rfl (fun _ h => by cases h)

theorem judgedBy_release {ticket : Ticket} :
    c.JudgedBy next (c.release ticket next) (c.world.living? ticket) := by
  unfold World.living?
  cases hc : c.world.cells[ticket.cell]? with
  | none =>
    rw [release_of_missing hc, Option.bind_none]
    exact not_turnedAway_reply rfl (fun h => by cases h)
  | some cell =>
    by_cases ho : cell.owners = 0
    · rw [release_of_dead hc ho, Option.bind_some, if_pos ho]
      exact not_turnedAway_reply rfl (fun h => by cases h)
    · rw [Option.bind_some, if_neg ho]
      change Judged c (c.ledger.cellAt ticket.cell) next _
      rw [Ledger.cellAt_of_getElem? hc]
      exact judged_release hc ho

/-- **Every call is judged rightly by the cell it enters.** -/
theorem judgedBy_perform (next : Outcome α → Program α) (call : Call α (Program α)) :
    c.JudgedBy next (c.perform next call) (call.entered? c.world) := by
  cases call with
  | create h => exact not_turnedAway_rebind rfl (fun h => by cases h)
  | share source target => exact not_turnedAway_withCell fun n cell => not_turnedAway_rebind rfl (fun h => by cases h)
  | hold h => exact not_turnedAway_withCell fun n cell => not_turnedAway_rebind rfl (fun h => by cases h)
  | giveUp h => exact not_turnedAway_withCell fun n cell => not_turnedAway_letGo rfl (fun h => by cases h)
  | inspect h => exact not_turnedAway_withCell fun n cell => not_turnedAway_reply rfl (fun h => by cases h)
  | reserve h => exact judgedBy_withCell fun n cell _ => judged_reserve
  | add h id v => exact judgedBy_withCell fun n cell hc => judged_store hc (fun h => by cases h)
  | set h id v => exact judgedBy_withCell fun n cell hc => judged_store hc (fun h => by cases h)
  | pop h id => exact judgedBy_withCell fun n cell _ => judged_pop
  | get h id => exact judgedBy_withCell fun n cell _ => judged_get
  | contains h id => exact judgedBy_withCell fun n cell _ => judged_query (fun _ h => by cases h)
  | size h => exact judgedBy_withCell fun n cell _ => judged_query (fun _ h => by cases h)
  | isEmpty h => exact judgedBy_withCell fun n cell _ => judged_query (fun _ h => by cases h)
  | cursor h => exact judgedBy_withCell fun n cell _ => judged_query (fun _ h => by cases h)
  | walk h visit => exact judgedBy_withCell fun n cell _ => judged_walk
  | release ticket => exact judgedBy_release
  | dispose serial => exact not_turnedAway_dispose
  | shelve ticket => exact not_turnedAway_reply rfl (fun h => by cases h)
  | shelved number => exact not_turnedAway_reply rfl (fun h => by cases h)
  | unshelve number => exact not_turnedAway_reply rfl (fun h => by cases h)

theorem step_of_call {call : Call α (Program α)} (hc : c.control = .running (.call call next)) :
    c.step = c.perform next call := by rw [step, hc]

theorem step_of_finish {scope : Scope α} {rest : List (Frame α)} {v : Verdict} {report : Option (List (Answer α))}
    (hc : c.control = .running (.finish v report)) (hs : c.stack = .call scope next :: rest) :
    c.step = { c with stack := rest }.resume scope next v report := by rw [step, hc]; simp only [hs]

/-- A call that was turned away breaks off with the message when its value is destroyed: others own the cell too, so it
is not cleared. -/
theorem resume_bouncing {v : Verdict} {report : Option (List (Answer α))} (hc : c.world.cells[n]? = some cell)
    (ho : 2 ≤ cell.owners) (hv : ∀ m, v ≠ .raise m) :
    c.resume (.bouncing n) next v report =
      (c.put n { cell with owners := cell.owners - 1 }).reply (.raised reentryMessage #[]) next := by
  have hgo : c.letGo n (.raised reentryMessage #[]) next =
      (c.put n { cell with owners := cell.owners - 1 }).reply (.raised reentryMessage #[]) next := by
    rw [letGo, hc]
    exact if_neg (by omega)
  cases v with
  | goOn => exact hgo
  | stop => exact hgo
  | raise message => exact absurd rfl (hv message)

end Config

/-! ### Threads that take turns -/

namespace Pool

variable {P : Pool α} {v : Verbosity} {programs : List (Program α)} {i : Nat} {s : Strand α} {n : CellId}
  {next : Outcome α → Program α}

/-- Whether the `i`-th strand shows a call made above `base` turned away. -/
def TurnsAway (P : Pool α) (i : Nat) (base : List (Frame α)) (next : Outcome α → Program α) : Prop :=
  ∃ s, P.strands[i]? = some s ∧ TurnedAway s.control s.stack base next

theorem step_of_getElem? (hs : P.strands[i]? = some s) :
    P.step i = if (s.within P.world).step.isBlocked then P
      else ⟨(s.within P.world).step.world, P.strands.set i (s.within P.world).step.strand⟩ := by
  rw [step, hs]

theorem step_of_not_blocked (hs : P.strands[i]? = some s) (h : (s.within P.world).step.isBlocked = false) :
    (P.step i).world = (s.within P.world).step.world ∧
      (P.step i).strands[i]? = some (s.within P.world).step.strand := by
  rw [step_of_getElem? hs, h]
  exact ⟨rfl, List.getElem?_set_self (List.getElem?_eq_some_iff.1 hs).1⟩

theorem turnsAway_step {call : Call α (Program α)} (hs : P.strands[i]? = some s)
    (hc : s.control = .running (.call call next)) :
    (P.step i).TurnsAway i s.stack next ↔ (s.within P.world).step.turnedAway s.stack next := by
  rw [TurnsAway, step_of_getElem? hs]
  split
  · rename_i hb
    refine iff_of_false ?_ ?_
    · rintro ⟨s', hs', h⟩
      rw [hs] at hs'
      cases hs'
      rcases h with ⟨h, -⟩ | ⟨m, p, -, h⟩
      · rw [hc] at h
        cases h
      · exact List.cons_ne_self _ _ h.symm
    · rintro (⟨h, -⟩ | ⟨m, p, h, -⟩)
      · rw [Config.isBlocked, h] at hb
        cases hb
      · rw [Config.isBlocked, h] at hb
        cases hb
  · rw [List.getElem?_set_self (List.getElem?_eq_some_iff.1 hs).1]
    exact ⟨fun ⟨_, heq, h⟩ => by cases heq; exact h, fun h => ⟨_, rfl, h⟩⟩

/-- The thread of a strand is registered with a cell when one of its unfinished calls is inside. -/
theorem Kept.inside_iff (hP : P.Kept) (hs : P.strands[i]? = some s) :
    s.thread ∈ (P.ledger.cellAt n).detector.inside ↔
      ∃ scope, (s.thread, scope) ∈ unfinished s.thread s.stack ∧ scope.IsInside n := by
  obtain ⟨pre, post, h, -⟩ := exists_middle hs
  rw [← mem_entered_stakesAt]
  exact (hP.strand h).inside_iff (fun _ _ _ hmem => mem_threads_of_heldBy hmem)

/-- A call that was turned away is not its cell's last owner. -/
theorem Kept.two_le_owners (hP : P.Kept) (hs : P.strands[i]? = some s) {rest : List (Frame α)}
    (hstack : s.stack = .call (.bouncing n) next :: rest) : ∃ cell, P.world.cells[n]? = some cell ∧ 2 ≤ cell.owners := by
  obtain ⟨pre, post, h, -⟩ := exists_middle hs
  have hk := hP.strand h
  have hg := hk.grounded
  have ht := (hk.sound.tallies n).owners
  rw [show (s.within P.world).ledger.stack = .call (.bouncing n) next :: rest from hstack] at hg ht
  obtain ⟨k, -, hmem⟩ := mem_entered.1 (hg.1 n rfl)
  have hpos := List.length_pos_of_mem hmem
  rw [stakesAt_call_self rfl, List.length_append, List.length_cons] at ht
  obtain ⟨cell, hc, -⟩ := hk.sound.owners_pos_of_mem (n := n) (k := (s.thread, .owning)) (by
    rw [show (s.within P.world).ledger.stack = .call (.bouncing n) next :: rest from hstack, stakesAt_call_self rfl]
    exact List.mem_cons_self)
  rw [Ledger.cellAt_of_getElem? hc] at ht
  exact ⟨cell, hc, by omega⟩

theorem cores_step (hs : P.strands[i]? = some s)
    (h : (s.within P.world).step.isBlocked = false → (s.within P.world).step.world.cores = P.world.cores) :
    (P.step i).world.cores = P.world.cores := by
  rw [step_of_getElem? hs]
  split
  · rfl
  · rename_i hb
    exact h (by simpa using hb)

/-- **A call is turned away exactly when its thread is inside its cell**: when one of the thread's unfinished calls on
that cell shows an entry to its visitor, copies a value, or destroys a value that it refused.  A call that is turned away
changes no registry, lock or detector, neither at once nor when the value it was to store has been destroyed. -/
theorem turned_away_iff (h : Reaches (start v programs) P) (hs : P.strands[i]? = some s) :
    (∀ call next, s.control = .running (.call call next) →
      ((P.step i).TurnsAway i s.stack next ↔
        ∃ n, call.entered? P.world = some n ∧
          ∃ scope, (s.thread, scope) ∈ unfinished s.thread s.stack ∧ scope.IsInside n) ∧
      ((P.step i).TurnsAway i s.stack next → (P.step i).world.cores = P.world.cores)) ∧
    (∀ n next rest verdict report, s.stack = .call (.bouncing n) next :: rest →
      s.control = .running (.finish verdict report) → (∀ message, verdict ≠ .raise message) →
      (P.step i).strands[i]? = some ⟨s.thread, .replying (.raised reentryMessage #[]) next, rest⟩ ∧
        (P.step i).world.cores = P.world.cores) := by
  have hP := h.kept (start_kept v programs)
  constructor
  · intro call next hc
    have hstep : (s.within P.world).step = (s.within P.world).perform next call := Config.step_of_call hc
    have hjudged := Config.judgedBy_perform (c := s.within P.world) next call
    rw [← hstep] at hjudged
    rw [turnsAway_step hs hc]
    cases he : call.entered? P.world with
    | none =>
      rw [show call.entered? (s.within P.world).world = none from he] at hjudged
      exact ⟨iff_of_false hjudged (fun ⟨n, hn, _⟩ => by cases hn), fun ht => absurd ht hjudged⟩
    | some n =>
      rw [show call.entered? (s.within P.world).world = some n from he] at hjudged
      refine ⟨hjudged.turned_iff.trans ((hP.inside_iff hs).trans ?_), fun ht => ?_⟩
      · exact ⟨fun hin => ⟨n, rfl, hin⟩, fun ⟨m, hm, hin⟩ => by cases hm; exact hin⟩
      · exact cores_step hs (fun _ => hjudged.cores (hjudged.turned_iff.1 ht))
  · intro n next rest verdict report hstack hc hv
    obtain ⟨cell, hcell, ho⟩ := hP.two_le_owners hs hstack
    have hstep := (Config.step_of_finish (c := s.within P.world) hc hstack).trans
      (Config.resume_bouncing (c := { s.within P.world with stack := rest }) hcell ho hv)
    obtain ⟨hw, hstrand⟩ := step_of_not_blocked hs (by rw [hstep]; rfl)
    rw [hw, hstrand, hstep]
    exact ⟨rfl, World.cores_put hcell rfl⟩

/-- A registry is asked for its size by the code that destroys a value which it refused. -/
def askedWhileRefusing : Program String :=
  .call (.create (.named "a")) fun _ =>
    .call (.set (.named "a") 7 ⟨"x", .call (.size (.named "a")) fun _ => .idle, .idle⟩) fun _ => .idle

theorem turned_away_while_refusing :
    ∃ P s, Reaches (start .trace [askedWhileRefusing]) P ∧ P.strands[0]? = some s ∧
      (P.step 0).TurnsAway 0 s.stack (fun _ => .idle) ∧ (P.step 0).world.cores = P.world.cores := by
  have h : Reaches (start .trace [askedWhileRefusing]) ((((start .trace [askedWhileRefusing]).step 0).step 0).step 0) :=
    .tail (.tail (.tail (.refl _) 0) 0) 0
  obtain ⟨hiff, hcores⟩ := (turned_away_iff h (i := 0) rfl).1 (.size (.named "a")) (fun _ => .idle) rfl
  have hin := hiff.2 ⟨0, rfl, .rejecting 0 (.unreserved 7), List.mem_cons_self, rfl⟩
  exact ⟨_, _, h, rfl, hin, hcores hin⟩

end Pool

end SlotRegistry
