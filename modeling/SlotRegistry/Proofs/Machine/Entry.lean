import SlotRegistry.Machine.Step
/-!
# Entry — what entering a cell comes to

A call that enters a cell is turned away when its thread is inside already, waits when the lock is held against it, and
otherwise goes on with the cell registered and locked.  The equations below are all that the other modules use of
`writing` and `reading`, and of what the calls do inside them.
-/
namespace SlotRegistry

variable {α : Type}

theorem Detector.enter?_of_mem {d : Detector} {t : Thread} (h : t ∈ d.inside) : d.enter? t = none := by
  rw [Detector.enter?, if_pos h]

theorem Detector.enter?_of_not_mem {d : Detector} {t : Thread} (h : t ∉ d.inside) :
    d.enter? t = some ⟨t :: d.inside⟩ := by rw [Detector.enter?, if_neg h]

namespace Cell

variable {cell : Cell α} {t : Thread} {readers : List Thread} {r : Registry (Stored α)}

/-- The cell with a thread registered that holds the lock for writing. -/
def heldForWriting (cell : Cell α) (t : Thread) : Cell α :=
  { cell with lock := .exclusive t, detector := ⟨t :: cell.detector.inside⟩ }

/-- The cell with a thread registered that holds the lock for reading, together with other readers. -/
def heldForReading (cell : Cell α) (t : Thread) (readers : List Thread) : Cell α :=
  { cell with lock := .shared (t :: readers), detector := ⟨t :: cell.detector.inside⟩ }

@[simp] theorem registry_heldForWriting : (cell.heldForWriting t).registry = cell.registry := rfl

@[simp] theorem registry_heldForReading : (cell.heldForReading t readers).registry = cell.registry := rfl

/-- Writing a registry under the lock and leaving again changes the registry only. -/
theorem endWrite_leave_heldForWriting (h : cell.lock = .free) :
    ((cell.heldForWriting t).withRegistry r).endWrite.leave t = cell.withRegistry r := by
  simp only [heldForWriting, withRegistry, endWrite, leave, Lock.endWrite, Detector.leave_cons]
  rw [← h]

theorem endWrite_leave_heldForWriting_self (h : cell.lock = .free) :
    (cell.heldForWriting t).endWrite.leave t = cell := endWrite_leave_heldForWriting h

theorem endRead_leave_heldForReading (h : cell.lock = .shared readers) :
    ((cell.heldForReading t readers).endRead t).leave t = cell := by
  simp only [heldForReading, endRead, leave, Lock.endRead_cons, Detector.leave_cons]
  rw [← h]

end Cell

namespace Config

variable {c : Config α} {cell : Cell α} {refused : Config α} {inside : Cell α → Config α}

theorem writing_of_inside (h : c.thread ∈ cell.detector.inside) : c.writing cell refused inside = refused := by
  simp [writing, Cell.enter?, Detector.enter?_of_mem h]

theorem writing_of_held (h : c.thread ∉ cell.detector.inside) (hl : cell.lock ≠ .free) :
    c.writing cell refused inside = c.block := by
  simp only [writing, Cell.enter?, Detector.enter?_of_not_mem h, Option.map_some, Cell.write?]
  cases hc : cell.lock with
  | exclusive w => rfl
  | shared readers =>
    cases readers with
    | nil => exact absurd hc hl
    | cons u us => rfl

theorem writing_of_free (h : c.thread ∉ cell.detector.inside) (hl : cell.lock = .free) :
    c.writing cell refused inside = inside (cell.heldForWriting c.thread) := by
  simp only [writing, Cell.enter?, Detector.enter?_of_not_mem h, Option.map_some, Cell.write?, hl]
  rfl

theorem reading_of_inside (h : c.thread ∈ cell.detector.inside) : c.reading cell refused inside = refused := by
  simp [reading, Cell.enter?, Detector.enter?_of_mem h]

theorem reading_of_exclusive {w : Thread} (h : c.thread ∉ cell.detector.inside) (hl : cell.lock = .exclusive w) :
    c.reading cell refused inside = c.block := by
  simp only [reading, Cell.enter?, Detector.enter?_of_not_mem h, Option.map_some, Cell.read?, hl]
  rfl

theorem reading_of_shared {readers : List Thread} (h : c.thread ∉ cell.detector.inside)
    (hl : cell.lock = .shared readers) :
    c.reading cell refused inside = inside (cell.heldForReading c.thread readers) := by
  simp only [reading, Cell.enter?, Detector.enter?_of_not_mem h, Option.map_some, Cell.read?, hl]
  rfl

/-- **Entering to write is turned away, waits, or goes on.** -/
theorem writing_cases (c : Config α) (cell : Cell α) (refused : Config α) (inside : Cell α → Config α) :
    (c.thread ∈ cell.detector.inside ∧ c.writing cell refused inside = refused) ∨
    (c.thread ∉ cell.detector.inside ∧ cell.lock ≠ .free ∧ c.writing cell refused inside = c.block) ∨
    (c.thread ∉ cell.detector.inside ∧ cell.lock = .free ∧
      c.writing cell refused inside = inside (cell.heldForWriting c.thread)) := by
  by_cases h : c.thread ∈ cell.detector.inside
  · exact .inl ⟨h, writing_of_inside h⟩
  · by_cases hl : cell.lock = .free
    · exact .inr (.inr ⟨h, hl, writing_of_free h hl⟩)
    · exact .inr (.inl ⟨h, hl, writing_of_held h hl⟩)

/-- **Entering to read is turned away, waits, or goes on.** -/
theorem reading_cases (c : Config α) (cell : Cell α) (refused : Config α) (inside : Cell α → Config α) :
    (c.thread ∈ cell.detector.inside ∧ c.reading cell refused inside = refused) ∨
    (c.thread ∉ cell.detector.inside ∧ (∃ w, cell.lock = .exclusive w) ∧ c.reading cell refused inside = c.block) ∨
    (c.thread ∉ cell.detector.inside ∧ ∃ readers, cell.lock = .shared readers ∧
      c.reading cell refused inside = inside (cell.heldForReading c.thread readers)) := by
  by_cases h : c.thread ∈ cell.detector.inside
  · exact .inl ⟨h, reading_of_inside h⟩
  · cases hl : cell.lock with
    | exclusive w => exact .inr (.inl ⟨h, ⟨w, rfl⟩, reading_of_exclusive h hl⟩)
    | shared readers => exact .inr (.inr ⟨h, readers, rfl, reading_of_shared h hl⟩)

/-! ### The calls once they are inside -/

variable {n : CellId} {next : Outcome α → Program α} {id : SlotId} {r : Registry (Stored α)} {why : Refusal}
  {readers : List Thread}

theorem emit_of_not_shown {e : Event} {lock : Lock} (h : c.world.verbosity.shows e = false) : c.emit e n lock = c := by
  simp [emit, World.emit, h]

theorem reserve_of_ok (h : c.thread ∉ cell.detector.inside) (hl : cell.lock = .free)
    (hr : cell.registry.reserve = .ok (id, r)) :
    c.reserve n cell next =
      ((c.emit (.reserved id) n .free).put n (cell.withRegistry r)).reply (.reserved ⟨id, n⟩) next := by
  rw [reserve, writing_of_free h hl]
  simp only [Cell.registry_heldForWriting, hr, Cell.endWrite_leave_heldForWriting hl]
  rfl

theorem reserve_of_error (h : c.thread ∉ cell.detector.inside) (hl : cell.lock = .free)
    (hr : cell.registry.reserve = .error why) :
    c.reserve n cell next =
      ((c.emit (.exhausted cell.registry.cursor) n (.shared [c.thread])).put n cell).reply (.refused why) next := by
  rw [reserve, writing_of_free h hl]
  simp only [Cell.registry_heldForWriting, hr, Cell.endWrite_leave_heldForWriting_self hl]
  have hread : (cell.heldForWriting c.thread).endWrite.read? c.thread = some (cell.heldForReading c.thread []) := rfl
  rw [show (cell.heldForWriting c.thread).endWrite.registry.cursor = cell.registry.cursor from rfl, hread]
  split
  · simp only [Cell.endRead_leave_heldForReading (show cell.lock = .shared [] from hl)]
    rfl
  · rename_i hs
    rw [emit_of_not_shown (by simpa using hs)]

theorem store_of_inside {v : Value α (Program α)} {bind : Registry (Stored α) → SlotId → Stored α → Except Refusal _}
    {event : Event} {x : Outcome α} (h : c.thread ∈ cell.detector.inside) :
    c.store n cell id v bind event x next =
      (({ c with world := (c.world.handOver v n id).2 }.put n cell.addOwner).destroy ⟨c.world.handed, v⟩ (.bouncing n)
        next) := by
  rw [store]
  exact writing_of_inside h

theorem store_of_ok {v : Value α (Program α)} {bind : Registry (Stored α) → SlotId → Stored α → Except Refusal _}
    {event : Event} {x : Outcome α} (h : c.thread ∉ cell.detector.inside) (hl : cell.lock = .free)
    (hr : bind cell.registry id ⟨c.world.handed, v⟩ = .ok r) :
    c.store n cell id v bind event x next =
      ((({ c with world := (c.world.handOver v n id).2 }.emit event n .free).put n (cell.withRegistry r)).reply x
        next) := by
  rw [store]
  refine (writing_of_free (c := { c with world := (c.world.handOver v n id).2 }) h hl).trans ?_
  simp only [Cell.registry_heldForWriting, World.handOver, hr, Cell.endWrite_leave_heldForWriting hl]
  rfl

theorem store_of_error {v : Value α (Program α)} {bind : Registry (Stored α) → SlotId → Stored α → Except Refusal _}
    {event : Event} {x : Outcome α} (h : c.thread ∉ cell.detector.inside) (hl : cell.lock = .free)
    (hr : bind cell.registry id ⟨c.world.handed, v⟩ = .error why) :
    c.store n cell id v bind event x next =
      (({ c with world := (c.world.handOver v n id).2 }.put n (cell.heldForWriting c.thread).addOwner).destroy
        ⟨c.world.handed, v⟩ (.rejecting n why) next) := by
  rw [store]
  refine (writing_of_free (c := { c with world := (c.world.handOver v n id).2 }) h hl).trans ?_
  simp only [Cell.registry_heldForWriting, World.handOver, hr]

theorem store_of_held {v : Value α (Program α)} {bind : Registry (Stored α) → SlotId → Stored α → Except Refusal _}
    {event : Event} {x : Outcome α} (h : c.thread ∉ cell.detector.inside) (hl : cell.lock ≠ .free) :
    c.store n cell id v bind event x next = { c with world := (c.world.handOver v n id).2 }.block := by
  rw [store]
  exact writing_of_held h hl

theorem pop_of_ok {s : Stored α} (h : c.thread ∉ cell.detector.inside) (hl : cell.lock = .free)
    (hr : cell.registry.take id = .ok (s, r)) :
    c.pop n cell id next =
      ({ (c.emit (.popped id) n .free).put n (cell.withRegistry r) with
        world := (((c.emit (.popped id) n .free).put n (cell.withRegistry r)).world.giveBack s) }.reply
        (.popped s.serial s.value.payload) next) := by
  rw [pop, writing_of_free h hl]
  simp only [Cell.registry_heldForWriting, hr, Cell.endWrite_leave_heldForWriting hl]
  rfl

theorem pop_of_error (h : c.thread ∉ cell.detector.inside) (hl : cell.lock = .free)
    (hr : cell.registry.take id = .error why) : c.pop n cell id next = (c.put n cell).reply (.refused why) next := by
  rw [pop, writing_of_free h hl]
  simp only [Cell.registry_heldForWriting, hr, Cell.endWrite_leave_heldForWriting_self hl]

theorem query_of_shared {answer : Registry (Stored α) → Outcome α} (h : c.thread ∉ cell.detector.inside)
    (hl : cell.lock = .shared readers) :
    c.query n cell answer next = (c.put n cell).reply (answer cell.registry) next := by
  rw [query, reading_of_shared h hl]
  simp only [Cell.registry_heldForReading, Cell.endRead_leave_heldForReading hl]

theorem get_of_none (h : c.thread ∉ cell.detector.inside) (hl : cell.lock = .shared readers)
    (hr : cell.registry.get? id = none) : c.get n cell id next = (c.put n cell).reply (.found none) next := by
  rw [get, reading_of_shared h hl]
  simp only [Cell.registry_heldForReading, hr, Cell.endRead_leave_heldForReading hl]

theorem get_of_some {s : Stored α} (h : c.thread ∉ cell.detector.inside) (hl : cell.lock = .shared readers)
    (hr : cell.registry.get? id = some s) :
    c.get n cell id next = ((c.put n (cell.heldForReading c.thread readers).addOwner).run s.value.onCopy
      (.copying n s.value.payload) next) := by
  rw [get, reading_of_shared h hl]
  simp only [Cell.registry_heldForReading, hr]

theorem walk_of_shared {visit : Array (Visit α) → SlotId → Option α → Program α} (h : c.thread ∉ cell.detector.inside)
    (hl : cell.lock = .shared readers) :
    c.walk n cell visit next =
      (c.put n (cell.heldForReading c.thread readers).addOwner).walkOn n visit #[] cell.registry.ids next := by
  rw [walk, reading_of_shared h hl]
  rfl

theorem release_of_missing {ticket : Ticket} (h : c.world.cells[ticket.cell]? = none) :
    c.release ticket next = c.reply .done next := by rw [release, h]

theorem release_of_dead {ticket : Ticket} (h : c.world.cells[ticket.cell]? = some cell) (ho : cell.owners = 0) :
    c.release ticket next = c.reply .done next := by simp [release, h, ho]

theorem release_of_inside {ticket : Ticket} (hc : c.world.cells[ticket.cell]? = some cell) (ho : cell.owners ≠ 0)
    (h : c.thread ∈ cell.detector.inside) : c.release ticket next = c.refuseEntry next := by
  rw [release, hc]
  exact (if_neg ho).trans (writing_of_inside h)

theorem release_of_held {ticket : Ticket} (hc : c.world.cells[ticket.cell]? = some cell) (ho : cell.owners ≠ 0)
    (h : c.thread ∉ cell.detector.inside) (hl : cell.lock ≠ .free) : c.release ticket next = c.block := by
  rw [release, hc]
  exact (if_neg ho).trans (writing_of_held h hl)

theorem release_of_occupied {ticket : Ticket} {s : Stored α} (hc : c.world.cells[ticket.cell]? = some cell)
    (ho : cell.owners ≠ 0) (h : c.thread ∉ cell.detector.inside) (hl : cell.lock = .free)
    (hs : cell.registry.slot? ticket.id = some (.occupied s)) :
    c.release ticket next =
      (((c.emit (.released ticket.id true) ticket.cell .free).put ticket.cell
        (cell.withRegistry (cell.registry.remove ticket.id)).addOwner).destroy s (.discarding ticket.cell) next) := by
  rw [release, hc]
  refine ((if_neg ho).trans (writing_of_free h hl)).trans ?_
  simp only [Cell.registry_heldForWriting, hs, Cell.endWrite_leave_heldForWriting hl, Option.isSome_some]
  rw [show (cell.withRegistry (cell.registry.remove ticket.id)).lock = .free from hl]

theorem release_of_not_occupied {ticket : Ticket} (hc : c.world.cells[ticket.cell]? = some cell)
    (ho : cell.owners ≠ 0) (h : c.thread ∉ cell.detector.inside) (hl : cell.lock = .free)
    (hs : ∀ s, cell.registry.slot? ticket.id ≠ some (.occupied s)) :
    c.release ticket next =
      (((c.emit (.released ticket.id (cell.registry.slot? ticket.id).isSome) ticket.cell .free).put ticket.cell
        (cell.withRegistry (cell.registry.remove ticket.id))).reply .done next) := by
  rw [release, hc]
  refine ((if_neg ho).trans (writing_of_free h hl)).trans ?_
  simp only [Cell.registry_heldForWriting, Cell.endWrite_leave_heldForWriting hl]
  rw [show (cell.withRegistry (cell.registry.remove ticket.id)).lock = .free from hl]

/-! ### Letting go of a cell, and clearing it -/

variable {ahead : List SlotId} {v : Stored α} {x : Outcome α}

theorem letGo_of_last (hc : c.world.cells[n]? = some cell) (ho : cell.owners = 1) :
    c.letGo n x next =
      { (c.put n { cell with owners := 0 }).log (.closed n) with control := .tearing n cell.registry.ids x next } := by
  unfold letGo
  rw [hc]
  exact if_pos ho

theorem letGo_of_others (hc : c.world.cells[n]? = some cell) (ho : cell.owners ≠ 1) :
    c.letGo n x next = (c.put n { cell with owners := cell.owners - 1 }).reply x next := by
  unfold letGo
  rw [hc]
  exact if_neg ho

theorem letGo_of_missing (hc : c.world.cells[n]? = none) : c.letGo n x next = c.reply x next := by
  unfold letGo
  rw [hc]

theorem tearOn_of_missing (hc : c.world.cells[n]? = none) : c.tearOn n ahead x next = c.reply x next := by
  unfold tearOn
  rw [hc]
  cases ahead <;> rfl

theorem tearOn_of_value (hc : c.world.cells[n]? = some cell) (hs : cell.registry.get? id = some v) :
    c.tearOn n (id :: ahead) x next =
      (c.put n (cell.withRegistry (cell.registry.remove id))).destroy v (.tearing n ahead x) next := by
  unfold tearOn
  rw [hc]
  simp only [hs]

theorem tearOn_of_none (hc : c.world.cells[n]? = some cell) (hs : cell.registry.get? id = none) :
    c.tearOn n (id :: ahead) x next =
      { c.put n (cell.withRegistry (cell.registry.remove id)) with control := .tearing n ahead x next } := by
  unfold tearOn
  rw [hc]
  simp only [hs]

end Config

end SlotRegistry
