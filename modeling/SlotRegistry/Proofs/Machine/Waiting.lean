import SlotRegistry.Proofs.Machine.Reentry
/-!
# Waiting — what a thread waits for

A call waits when it comes to a lock that is held against it.  Whoever holds a lock is inside its cell, so a call that
would come to a lock of its own thread has been turned away before.  A thread waits for other threads only, and one that
is alone never waits.
-/
namespace SlotRegistry

variable {α : Type}

namespace Lock

variable {l : Lock} {t : Thread}

theorem heldBy_iff : l.heldBy t ↔ t ∈ l.readers ∨ t ∈ l.writers := by
  cases l with
  | shared rs => simp [heldBy, Lock.readers, writers]
  | exclusive w => simp [heldBy, Lock.readers, writers]

theorem exists_heldBy (h : l ≠ .free) : ∃ t, l.heldBy t := by
  cases l with
  | exclusive w => exact ⟨w, rfl⟩
  | shared rs =>
    cases rs with
    | nil => exact absurd rfl h
    | cons t rest => exact ⟨t, List.mem_cons_self⟩

end Lock

namespace Config

variable {c d : Config α} {cell : Cell α} {n : CellId} {id : SlotId} {x : Outcome α} {next : Outcome α → Program α}

/-! ### Steps that never wait -/

theorem isBlocked_letGo : (c.letGo n x next).isBlocked = false := by
  unfold letGo
  split
  · rfl
  · split <;> rfl

theorem isBlocked_endReading : (c.endReading n x next).isBlocked = false := by
  unfold endReading
  split
  · rfl
  · exact isBlocked_letGo

theorem isBlocked_endWriting : (c.endWriting n x next).isBlocked = false := by
  unfold endWriting
  split
  · rfl
  · exact isBlocked_letGo

theorem isBlocked_walkOn {visit : Array (Visit α) → SlotId → Option α → Program α} {visits : Array (Visit α)}
    {ahead : List SlotId} : (c.walkOn n visit visits ahead next).isBlocked = false := by
  unfold walkOn
  split
  · exact isBlocked_endReading
  · rfl

theorem isBlocked_tearOn {ahead : List SlotId} : (c.tearOn n ahead x next).isBlocked = false := by
  unfold tearOn
  split
  · dsimp only
    split <;> rfl
  · rfl

theorem isBlocked_resume {s : Scope α} {v : Verdict} {report : Option (List (Answer α))} :
    (c.resume s next v report).isBlocked = false := by
  cases s with
  | walking n visit visits id value ahead =>
    cases v with
    | goOn => exact isBlocked_walkOn
    | stop => exact isBlocked_endReading
    | raise message => exact isBlocked_endReading
  | copying n payload => cases v <;> exact isBlocked_endReading
  | rejecting n why => cases v <;> exact isBlocked_endWriting
  | bouncing n =>
    cases v with
    | goOn => exact isBlocked_letGo
    | stop => exact isBlocked_letGo
    | raise message => rfl
  | discarding n => cases v <;> exact isBlocked_letGo
  | tearing n ahead x => cases v <;> cases x <;> rfl
  | disposing => cases v <;> rfl

theorem isBlocked_rebind {h : Handle} : (c.rebind h n x next).isBlocked = false := by
  unfold rebind
  dsimp only
  split
  · rfl
  · exact isBlocked_letGo

theorem isBlocked_dispose {serial : Nat} : (c.dispose serial next).isBlocked = false := by
  unfold dispose
  split <;> rfl

/-! ### Calls that may wait -/

/-- If the call that `c` makes on a cell waits, it was not turned away, and somebody holds the lock. -/
def WaitsFor (c : Config α) (cell : Cell α) (d : Config α) : Prop :=
  d.isBlocked = true → c.thread ∉ cell.detector.inside ∧ cell.lock ≠ .free

theorem waitsFor_of_not_blocked (h : d.isBlocked = false) : WaitsFor c cell d := by
  intro hd
  rw [h] at hd
  cases hd

/-- Entering to write: if the call does not wait once it is inside, it waits for the lock or not at all. -/
theorem waitsFor_writing {refused : Config α} {inside : Cell α → Config α} (hr : refused.isBlocked = false)
    (hi : c.thread ∉ cell.detector.inside → cell.lock = .free →
      (c.writing cell refused inside).isBlocked = false) : WaitsFor c cell (c.writing cell refused inside) := by
  intro hd
  by_cases hin : c.thread ∈ cell.detector.inside
  · rw [writing_of_inside hin, hr] at hd
    cases hd
  · refine ⟨hin, fun hl => ?_⟩
    rw [hi hin hl] at hd
    cases hd

theorem waitsFor_reading {inside : Cell α → Config α} (hi : ∀ cell, (inside cell).isBlocked = false) :
    WaitsFor c cell (c.reading cell (c.refuseEntry next) inside) := by
  rcases reading_cases c cell (c.refuseEntry next) inside with ⟨-, h⟩ | ⟨hin, ⟨w, hl⟩, h⟩ | ⟨-, readers, -, h⟩
  · rw [h]
    exact waitsFor_of_not_blocked rfl
  · intro _
    refine ⟨hin, fun hfree => ?_⟩
    rw [hl] at hfree
    cases hfree
  · rw [h]
    exact waitsFor_of_not_blocked (hi _)

/-- The lock is taken a second time to tell of an exhausted registry; nobody holds it then. -/
theorem waitsFor_reserve : WaitsFor c cell (c.reserve n cell next) := by
  refine waitsFor_writing rfl fun hin hl => ?_
  change (c.reserve n cell next).isBlocked = false
  cases hr : cell.registry.reserve with
  | ok p => rw [reserve_of_ok hin hl hr]; rfl
  | error why => rw [reserve_of_error hin hl hr]; rfl

theorem waitsFor_store {v : Value α (Program α)}
    {bind : Registry (Stored α) → SlotId → Stored α → Except Refusal (Registry (Stored α))} {event : Event} :
    WaitsFor c cell (c.store n cell id v bind event x next) := by
  intro hd
  by_cases hin : c.thread ∈ cell.detector.inside
  · rw [store_of_inside hin] at hd
    cases hd
  · refine ⟨hin, fun hl => ?_⟩
    cases hr : bind cell.registry id ⟨c.world.handed, v⟩ with
    | ok r =>
      rw [store_of_ok hin hl hr] at hd
      cases hd
    | error why =>
      rw [store_of_error hin hl hr] at hd
      cases hd

theorem waitsFor_pop : WaitsFor c cell (c.pop n cell id next) := by
  refine waitsFor_writing rfl fun hin hl => ?_
  change (c.pop n cell id next).isBlocked = false
  cases hr : cell.registry.take id with
  | ok p => rw [pop_of_ok hin hl hr]; rfl
  | error why => rw [pop_of_error hin hl hr]; rfl

theorem waitsFor_query {answer : Registry (Stored α) → Outcome α} : WaitsFor c cell (c.query n cell answer next) :=
  waitsFor_reading fun _ => rfl

theorem waitsFor_get : WaitsFor c cell (c.get n cell id next) := by
  refine waitsFor_reading fun cell => ?_
  split <;> rfl

theorem waitsFor_walk {visit : Array (Visit α) → SlotId → Option α → Program α} :
    WaitsFor c cell (c.walk n cell visit next) := waitsFor_reading fun _ => isBlocked_walkOn

theorem waitsFor_release {ticket : Ticket} (hc : c.world.cells[ticket.cell]? = some cell) (ho : cell.owners ≠ 0) :
    WaitsFor c cell (c.release ticket next) := by
  intro hd
  by_cases hin : c.thread ∈ cell.detector.inside
  · rw [release_of_inside hc ho hin] at hd
    cases hd
  · refine ⟨hin, fun hl => ?_⟩
    by_cases hs : ∃ v, cell.registry.slot? ticket.id = some (.occupied v)
    · obtain ⟨v, hs⟩ := hs
      rw [release_of_occupied hc ho hin hl hs] at hd
      cases hd
    · rw [release_of_not_occupied hc ho hin hl fun v hv => hs ⟨v, hv⟩] at hd
      cases hd

/-- What runs next is a call that enters a cell. -/
def ComesTo (c : Config α) (n : CellId) (cell : Cell α) : Prop :=
  ∃ call next, c.control = .running (.call call next) ∧ call.entered? c.world = some n ∧
    c.world.cells[n]? = some cell

/-- A call that waits has come to the lock of the cell it enters. -/
def WaitsBy (c d : Config α) (entered : Option CellId) : Prop :=
  d.isBlocked = true → ∃ n cell, entered = some n ∧ c.world.cells[n]? = some cell ∧
    c.thread ∉ cell.detector.inside ∧ cell.lock ≠ .free

theorem waitsBy_of_not_blocked {o : Option CellId} (h : d.isBlocked = false) : WaitsBy c d o := by
  intro hd
  rw [h] at hd
  cases hd

theorem WaitsFor.by (h : WaitsFor c cell d) (hc : c.world.cells[n]? = some cell) : WaitsBy c d (some n) :=
  fun hd => ⟨n, cell, rfl, hc, h hd⟩

theorem waitsBy_withCell {h : Handle} {act : CellId → Cell α → Config α}
    (hact : ∀ n cell, WaitsFor c cell (act n cell)) :
    WaitsBy c (c.withCell h next act) ((c.world.cellOf? h).map Prod.fst) := by
  unfold withCell
  split
  · exact waitsBy_of_not_blocked rfl
  · rename_i n cell hw
    rw [hw]
    exact (hact n cell).by (cellOf?_eq_some hw).2

theorem waitsBy_withCell_of_not_blocked {h : Handle} {act : CellId → Cell α → Config α} {o : Option CellId}
    (hact : ∀ n cell, (act n cell).isBlocked = false) : WaitsBy c (c.withCell h next act) o := by
  unfold withCell
  split
  · exact waitsBy_of_not_blocked rfl
  · exact waitsBy_of_not_blocked (hact _ _)

theorem waitsBy_release {ticket : Ticket} : WaitsBy c (c.release ticket next) (c.world.living? ticket) := by
  unfold World.living?
  cases hc : c.world.cells[ticket.cell]? with
  | none =>
    rw [release_of_missing hc]
    exact waitsBy_of_not_blocked rfl
  | some cell =>
    by_cases ho : cell.owners = 0
    · rw [release_of_dead hc ho]
      exact waitsBy_of_not_blocked rfl
    · rw [Option.bind_some, if_neg ho]
      exact (waitsFor_release hc ho).by hc

theorem waitsBy_perform (next : Outcome α → Program α) (call : Call α (Program α)) :
    WaitsBy c (c.perform next call) (call.entered? c.world) := by
  cases call with
  | create h => exact waitsBy_of_not_blocked isBlocked_rebind
  | share source target => exact waitsBy_withCell_of_not_blocked fun _ _ => isBlocked_rebind
  | hold h => exact waitsBy_withCell_of_not_blocked fun _ _ => isBlocked_rebind
  | giveUp h => exact waitsBy_withCell_of_not_blocked fun _ _ => isBlocked_letGo
  | inspect h => exact waitsBy_withCell_of_not_blocked fun _ _ => rfl
  | reserve h => exact waitsBy_withCell fun _ _ => waitsFor_reserve
  | add h id v => exact waitsBy_withCell fun _ _ => waitsFor_store
  | set h id v => exact waitsBy_withCell fun _ _ => waitsFor_store
  | pop h id => exact waitsBy_withCell fun _ _ => waitsFor_pop
  | get h id => exact waitsBy_withCell fun _ _ => waitsFor_get
  | contains h id => exact waitsBy_withCell fun _ _ => waitsFor_query
  | size h => exact waitsBy_withCell fun _ _ => waitsFor_query
  | isEmpty h => exact waitsBy_withCell fun _ _ => waitsFor_query
  | cursor h => exact waitsBy_withCell fun _ _ => waitsFor_query
  | walk h visit => exact waitsBy_withCell fun _ _ => waitsFor_walk
  | release ticket => exact waitsBy_release
  | dispose serial => exact waitsBy_of_not_blocked isBlocked_dispose
  | shelve ticket => exact waitsBy_of_not_blocked rfl
  | shelved number => exact waitsBy_of_not_blocked rfl
  | unshelve number => exact waitsBy_of_not_blocked rfl

/-- **A step that comes to wait makes a call,** and the lock of the cell that the call enters is held. -/
theorem step_waits (hc : c.control ≠ .blocked) (hd : c.step.isBlocked = true) :
    ∃ n cell, c.ComesTo n cell ∧ c.thread ∉ cell.detector.inside ∧ cell.lock ≠ .free := by
  unfold step at hd
  split at hd
  · rename_i call next hcall
    obtain ⟨n, cell, hn, hcell, h⟩ := waitsBy_perform next call hd
    exact ⟨n, cell, ⟨call, next, hcall, hn, hcell⟩, h⟩
  · cases hd
  · cases hd
  · rename_i v report hfinish
    split at hd
    · rw [isBlocked, hfinish] at hd
      cases hd
    · rw [isBlocked_resume] at hd
      cases hd
    · cases hd
  · cases hd
  · rw [isBlocked_tearOn] at hd
    cases hd
  · rename_i hblocked
    exact absurd hblocked hc
  · rename_i haborted
    rw [isBlocked, haborted] at hd
    cases hd

end Config

/-! ### Threads that take turns -/

namespace Pool

variable {P : Pool α} {v : Verbosity} {programs : List (Program α)} {i : Nat} {s : Strand α} {n : CellId}
  {cell : Cell α} {u : Thread}

/-- **Whoever holds the lock of a cell is inside it.** -/
theorem Kept.inside_of_holds (hP : P.Kept) (hc : P.world.cells[n]? = some cell) (hu : cell.lock.heldBy u) :
    u ∈ cell.detector.inside := by
  have ht := hP.tallies n
  rw [Ledger.cellAt_of_getElem? (show P.ledger.cells[n]? = some cell from hc)] at ht
  rw [ht.inside.mem_iff, mem_entered]
  rcases Lock.heldBy_iff.1 hu with hr | hw
  · exact ⟨.reading, by decide, mem_holding.1 (ht.readers.mem_iff.1 hr)⟩
  · exact ⟨.writing, by decide, mem_holding.1 (ht.writers.mem_iff.1 hw)⟩

theorem Kept.started_of_inside (hP : P.Kept) (hc : P.world.cells[n]? = some cell) (hu : u ∈ cell.detector.inside) :
    u < P.world.threads := by
  have ht := (hP.tallies n).inside
  rw [Ledger.cellAt_of_getElem? (show P.ledger.cells[n]? = some cell from hc)] at ht
  obtain ⟨k, -, hk⟩ := mem_entered.1 (ht.mem_iff.1 hu)
  exact hP.started u (mem_threads_of_heldBy hk)

theorem Kept.thread_lt (hP : P.Kept) (hs : P.strands[i]? = some s) : s.thread < P.world.threads := by
  have hself : s.thread ∈ s.threads := mem_threadsOf_of_unfinished.self_mem_threadsOf _ _
  exact hP.started _ (List.mem_flatMap.2 ⟨s, List.mem_of_getElem? hs, hself⟩)

/-- A lock that is held while one thread alone has been started is held by that thread. -/
theorem Kept.holds_of_alone (hP : P.Kept) (hs : P.strands[i]? = some s) (alone : P.world.threads = 1)
    (hc : P.world.cells[n]? = some cell) (hu : cell.lock.heldBy u) : cell.lock.heldBy s.thread := by
  have h₁ := hP.started_of_inside hc (hP.inside_of_holds hc hu)
  have h₂ := hP.thread_lt hs
  rw [alone] at h₁ h₂
  rw [← (Nat.lt_one_iff.1 h₁).trans (Nat.lt_one_iff.1 h₂).symm]
  exact hu

/-- A turn passes when its strand would come to wait, so no strand ever waits. -/
theorem Reaches.not_blocked (h : Reaches (start v programs) P) : ∀ s ∈ P.strands, s.control ≠ .blocked := by
  induction h with
  | refl =>
    intro s hs
    obtain ⟨i, hi, rfl⟩ := List.mem_mapIdx.1 hs
    intro hc
    cases hc
  | @tail Q h i ih =>
    intro s hs
    cases hi : Q.strands[i]? with
    | none =>
      rw [step, hi] at hs
      exact ih s hs
    | some s' =>
      rw [step_of_getElem? hi] at hs
      split at hs
      · exact ih s hs
      · rename_i hb
        rcases List.mem_or_eq_of_mem_set hs with hs | rfl
        · exact ih s hs
        · intro hc
          rw [Config.isBlocked, show (s'.within Q.world).step.control = .blocked from hc] at hb
          exact hb rfl

/-- **No thread waits for itself.**  A thread that holds the lock of a cell is inside it.  A turn passes only when its
strand has come to a lock that others hold, and not its own thread.  While one thread alone has been started no turn
ever passes: a call that is not turned away finds the lock of its cell free. -/
theorem waits_for_others (h : Reaches (start v programs) P) (hs : P.strands[i]? = some s) :
    (∀ (n : CellId) (cell : Cell α), P.world.cells[n]? = some cell → cell.lock.heldBy s.thread →
      s.thread ∈ cell.detector.inside) ∧
    ((s.within P.world).step.isBlocked = true →
      ∃ (n : CellId) (cell : Cell α), (s.within P.world).ComesTo n cell ∧ (∃ u, cell.lock.heldBy u) ∧
        ¬ cell.lock.heldBy s.thread) ∧
    (P.world.threads = 1 → (s.within P.world).step.isBlocked = false ∧
      ∀ (n : CellId) (cell : Cell α), (s.within P.world).ComesTo n cell → s.thread ∉ cell.detector.inside →
        cell.lock = .free) := by
  have hP := h.kept (start_kept v programs)
  have hown : ∀ (n : CellId) (cell : Cell α), P.world.cells[n]? = some cell → s.thread ∉ cell.detector.inside →
      ¬ cell.lock.heldBy s.thread := fun n cell hc hin hheld => hin (hP.inside_of_holds hc hheld)
  have hwaits : (s.within P.world).step.isBlocked = true →
      ∃ (n : CellId) (cell : Cell α), (s.within P.world).ComesTo n cell ∧ (∃ u, cell.lock.heldBy u) ∧
        ¬ cell.lock.heldBy s.thread := by
    intro hb
    obtain ⟨n, cell, ⟨call, next, hcall, hn, hc⟩, hin, hl⟩ :=
      Config.step_waits (c := s.within P.world) (h.not_blocked s (List.mem_of_getElem? hs)) hb
    exact ⟨n, cell, ⟨call, next, hcall, hn, hc⟩, Lock.exists_heldBy hl, hown n cell hc hin⟩
  refine ⟨fun n cell hc hheld => hP.inside_of_holds hc hheld, hwaits, fun alone => ⟨?_, ?_⟩⟩
  · cases hb : (s.within P.world).step.isBlocked with
    | false => rfl
    | true =>
      obtain ⟨n, cell, ⟨call, next, -, -, hc⟩, ⟨u, hu⟩, hnot⟩ := hwaits hb
      exact absurd (hP.holds_of_alone hs alone hc hu) hnot
  · intro n cell ⟨call, next, hcall, hn, hc⟩ hin
    apply Classical.byContradiction
    intro hl
    obtain ⟨u, hu⟩ := Lock.exists_heldBy hl
    exact hown n cell hc hin (hP.holds_of_alone hs alone hc hu)

/-- The code that destroys a refused value asks for the size while its own thread holds the lock, and does not wait. -/
theorem asks_itself_without_waiting :
    ∃ P s cell, Reaches (start .trace [askedWhileRefusing]) P ∧ P.strands[0]? = some s ∧ P.world.threads = 1 ∧
      P.world.cells[0]? = some cell ∧ cell.lock.heldBy s.thread ∧ s.thread ∈ cell.detector.inside ∧
      (s.within P.world).step.isBlocked = false := by
  have h : Reaches (start .trace [askedWhileRefusing]) ((((start .trace [askedWhileRefusing]).step 0).step 0).step 0) :=
    .tail (.tail (.tail (.refl _) 0) 0) 0
  obtain ⟨hinside, -, halone⟩ := waits_for_others h (i := 0) rfl
  exact ⟨_, _, _, h, rfl, rfl, rfl, rfl, hinside 0 _ rfl rfl, (halone rfl).1⟩

/-- A visitor has another thread reserve an id, and waits for its end. -/
def reservesElsewhere : Program String :=
  .call (.create (.named "a")) fun _ => .call (.reserve (.named "a")) fun _ =>
    .call (.walk (.named "a") fun _ _ _ => .onThread (.call (.reserve (.named "a")) fun _ => .idle) fun _ _ => .idle)
      fun _ => .idle

/-- With a second thread the lock can be held against the one that runs. -/
example : (Config.advance 7 (Config.initial (World.empty .trace) reservesElsewhere)).isBlocked = true := rfl

end Pool

end SlotRegistry
