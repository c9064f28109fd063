import SlotRegistry.Proofs.Machine.Reentry
import SlotRegistry.Proofs.Machine.Trade
import SlotRegistry.Proofs.Reference.Requests
import SlotRegistry.Proofs.Registry.Draining
/-!
# Telling — who holds a lock while the listener is told

A step tells of one event at most, and the lock of the event's cell is free before the step and after it.  While the
listener is told, nobody holds the lock of the cell, with one exception: who tells that no id is left has asked for the
cursor, and holds the lock for reading until the listener has been told.
-/
namespace SlotRegistry

variable {α : Type}

/-- The lock of the cell while a thread tells of an event. -/
def Event.lockedBy (t : Thread) : Event → Lock
  | exhausted _ => .shared [t]
  | reserved _ | popped _ | added _ | set _ | released _ _ => .free

def Entry.isEvent : Entry α → Bool
  | event _ _ _ _ => true
  | created _ | closed _ | handed _ _ _ | returned _ | destroyed _ | note _ _ => false

namespace World

variable {w : World α} {e : Event} {n : CellId} {t : Thread} {lock : Lock}

/-- What the listener was told, the last event first. -/
def told (w : World α) : List (Entry α) := w.journal.filter Entry.isEvent

theorem mem_told {entry : Entry α} : entry ∈ w.told ↔ entry ∈ w.journal ∧ entry.isEvent := List.mem_filter

theorem told_emit : (w.emit e n t lock).told = w.news e n t lock ++ w.told := by
  unfold emit news
  split <;> rfl

theorem mem_news {e' : Event} {n' : CellId} {t' : Thread} {lock' : Lock}
    (h : Entry.event e' n' t' lock' ∈ w.news e n t lock) : e' = e ∧ n' = n ∧ t' = t ∧ lock' = lock := by
  unfold news at h
  split at h
  · cases List.mem_singleton.1 h
    exact ⟨rfl, rfl, rfl, rfl⟩
  · cases h

end World

namespace Config

variable {c d : Config α} {cell : Cell α} {n : CellId} {id : SlotId} {x : Outcome α} {next : Outcome α → Program α}

/-- What a step tells: nothing, or an event of a cell whose lock is free before and after it. -/
inductive Tells (c d : Config α) : Prop
  | nothing (told : d.world.told = c.world.told)
  | event {e : Event} {n : CellId} {cell cell' : Cell α} (found : c.world.cells[n]? = some cell)
      (free : cell.lock = .free) (found' : d.world.cells[n]? = some cell') (free' : cell'.lock = .free)
      (told : d.world.told = c.world.news e n c.thread (e.lockedBy c.thread) ++ c.world.told)

/-- A step that leaves ids and values alone tells nothing. -/
theorem Rests.tells (h : c.Rests d) : c.Tells d := by
  obtain ⟨news, hj, plain⟩ := h.journal
  refine .nothing ?_
  rw [World.told, hj, List.filter_append, List.filter_eq_nil_iff.2, List.nil_append, World.told]
  intro e he
  have := plain e he
  cases e <;> simp_all [Entry.isPlain, Entry.isEvent]

theorem getElem?_put (hc : c.world.cells[n]? = some cell) (cell' : Cell α) :
    (c.put n cell').world.cells[n]? = some cell' :=
  List.getElem?_set_self (List.getElem?_eq_some_iff.1 hc).1

theorem getElem?_emit {e : Event} {m : CellId} {lock : Lock} (hc : c.world.cells[n]? = some cell) :
    (c.emit e m lock).world.cells[n]? = some cell := by rw [cells_emit, hc]

theorem tells_reserve (hc : c.world.cells[n]? = some cell) : c.Tells (c.reserve n cell next) := by
  rcases writing_cases c cell (c.refuseEntry next) _ with ⟨-, h⟩ | ⟨-, -, h⟩ | ⟨hin, hl, -⟩
  · rw [reserve, h]; exact .nothing rfl
  · rw [reserve, h]; exact .nothing rfl
  · cases hr : cell.registry.reserve with
    | ok p =>
      rw [reserve_of_ok hin hl hr]
      exact .event (e := .reserved p.1) hc hl (getElem?_put (getElem?_emit hc) _) hl World.told_emit
    | error why =>
      rw [reserve_of_error hin hl hr]
      exact .event (e := .exhausted cell.registry.cursor) hc hl (getElem?_put (getElem?_emit hc) _) hl World.told_emit

theorem tells_store {v : Value α (Program α)} {bind : Registry (Stored α) → SlotId → Stored α → Except Refusal _}
    {event : Event} (hc : c.world.cells[n]? = some cell) (he : event.lockedBy c.thread = .free) :
    c.Tells (c.store n cell id v bind event x next) := by
  by_cases hin : c.thread ∈ cell.detector.inside
  · rw [store_of_inside hin]; exact .nothing rfl
  by_cases hl : cell.lock = .free
  · cases hr : bind cell.registry id ⟨c.world.handed, v⟩ with
    | ok r =>
      have hemit : ({ c with world := (c.world.handOver v n id).2 }.emit event n .free).world.cells[n]? = some cell :=
        getElem?_emit hc
      rw [store_of_ok hin hl hr]
      refine .event (e := event) hc hl (getElem?_put hemit _) hl ?_
      rw [he]
      exact World.told_emit
    | error why => rw [store_of_error hin hl hr]; exact .nothing rfl
  · rw [store_of_held hin hl]; exact .nothing rfl

theorem tells_pop (hc : c.world.cells[n]? = some cell) : c.Tells (c.pop n cell id next) := by
  rcases writing_cases c cell (c.refuseEntry next) _ with ⟨-, h⟩ | ⟨-, -, h⟩ | ⟨hin, hl, -⟩
  · rw [pop, h]; exact .nothing rfl
  · rw [pop, h]; exact .nothing rfl
  · cases hr : cell.registry.take id with
    | ok p =>
      rw [pop_of_ok hin hl hr]
      exact .event (e := .popped id) hc hl (getElem?_put (getElem?_emit hc) _) hl World.told_emit
    | error why => rw [pop_of_error hin hl hr]; exact .nothing rfl

theorem tells_release {ticket : Ticket} : c.Tells (c.release ticket next) := by
  cases hc : c.world.cells[ticket.cell]? with
  | none => rw [release_of_missing hc]; exact .nothing rfl
  | some cell =>
    by_cases ho : cell.owners = 0
    · rw [release_of_dead hc ho]; exact .nothing rfl
    by_cases hin : c.thread ∈ cell.detector.inside
    · rw [release_of_inside hc ho hin]; exact .nothing rfl
    by_cases hl : cell.lock = .free
    · by_cases hs : ∃ s, cell.registry.slot? ticket.id = some (.occupied s)
      · obtain ⟨s, hs⟩ := hs
        rw [release_of_occupied hc ho hin hl hs]
        exact .event (e := .released ticket.id true) hc hl (getElem?_put (getElem?_emit hc) _) hl World.told_emit
      · rw [release_of_not_occupied hc ho hin hl fun s hs' => hs ⟨s, hs'⟩]
        exact .event (e := .released ticket.id (cell.registry.slot? ticket.id).isSome) hc hl
          (getElem?_put (getElem?_emit hc) _) hl World.told_emit
    · rw [release_of_held hc ho hin hl]; exact .nothing rfl

theorem tells_tearOn {ahead : List SlotId} : c.Tells (c.tearOn n ahead x next) := by
  unfold tearOn
  split
  · dsimp only
    split <;> exact .nothing rfl
  · exact .nothing rfl

theorem tells_withCell {h : Handle} {act : CellId → Cell α → Config α}
    (hact : ∀ n cell, c.world.cells[n]? = some cell → c.Tells (act n cell)) : c.Tells (c.withCell h next act) := by
  unfold withCell
  split
  · exact .nothing rfl
  · rename_i n cell hw
    exact hact n cell (cellOf?_eq_some hw).2

theorem tells_perform (call : Call α (Program α)) : c.Tells (c.perform next call) := by
  cases call with
  | create h => exact rests_create.tells
  | share source target => exact tells_withCell fun n cell hc => (rests_share hc).tells
  | hold h => exact tells_withCell fun n cell hc => (rests_hold hc).tells
  | giveUp h => exact tells_withCell fun n cell _ => rests_giveUp.tells
  | inspect h => exact tells_withCell fun n cell _ => .nothing rfl
  | reserve h => exact tells_withCell fun n cell hc => tells_reserve hc
  | add h id v => exact tells_withCell fun n cell hc => tells_store hc rfl
  | set h id v => exact tells_withCell fun n cell hc => tells_store hc rfl
  | pop h id => exact tells_withCell fun n cell hc => tells_pop hc
  | get h id => exact tells_withCell fun n cell hc => (rests_get hc).tells
  | contains h id => exact tells_withCell fun n cell hc => (rests_query hc).tells
  | size h => exact tells_withCell fun n cell hc => (rests_query hc).tells
  | isEmpty h => exact tells_withCell fun n cell hc => (rests_query hc).tells
  | cursor h => exact tells_withCell fun n cell hc => (rests_query hc).tells
  | walk h visit => exact tells_withCell fun n cell hc => (rests_walk hc).tells
  | release ticket => exact tells_release
  | dispose serial => exact rests_dispose.tells
  | shelve ticket => exact .nothing rfl
  | shelved number => exact .nothing rfl
  | unshelve number => exact .nothing rfl

/-- **A step tells of one event at most,** of a cell that nobody has locked before it or after it. -/
theorem step_tells (c : Config α) : c.Tells c.step := by
  unfold step
  split
  · exact tells_perform _
  · exact .nothing rfl
  · exact .nothing rfl
  · split
    · exact .nothing rfl
    · refine Rests.tells ?_
      exact (rests_resume (c := { c with stack := _ })).of_cells rfl rfl rfl rfl
    · exact .nothing rfl
  · exact .nothing rfl
  · exact tells_tearOn
  · exact .nothing rfl
  · exact .nothing rfl

end Config

namespace Pool

variable {P : Pool α} {v : Verbosity} {programs : List (Program α)}

/-- Each event was told with the lock of its cell free, or held for reading by who tells that no id is left. -/
theorem Reaches.lockedBy (h : Reaches (start v programs) P) {e : Event} {n : CellId} {t : Thread} {lock : Lock}
    (he : Entry.event e n t lock ∈ P.world.told) : lock = e.lockedBy t := by
  induction h with
  | refl => cases he
  | @tail Q h i ih =>
    cases hi : Q.strands[i]? with
    | none =>
      rw [step, hi] at he
      exact ih he
    | some s =>
      rw [step_of_getElem? hi] at he
      split at he
      · exact ih he
      · cases (s.within Q.world).step_tells with
        | nothing told =>
          rw [told] at he
          exact ih he
        | event found free found' free' told =>
          rw [told] at he
          rcases List.mem_append.1 he with he | he
          · obtain ⟨rfl, rfl, rfl, rfl⟩ := World.mem_news he
            rfl
          · exact ih he

/-- **The listener is told under the lock when no id is left, and only then,** whatever the programs do, whoever takes
the turns and however much the listener is told.  The lock is then held by who tells, and for reading.  A turn tells of
one event at most, and leaves the lock of the event's cell free, as it found it. -/
theorem told_under_the_lock_iff_exhausted (h : Reaches (start v programs) P) :
    (∀ e n t lock, Entry.event e n t lock ∈ P.world.journal →
      ((∃ u, lock.heldBy u) ↔ ∃ cursor, e = .exhausted cursor) ∧ (∀ u, lock.heldBy u → u = t) ∧ lock.readable) ∧
    ∀ (i : Nat) (s : Strand α), P.strands[i]? = some s → (s.within P.world).Tells (s.within P.world).step := by
  refine ⟨fun e n t lock he => ?_, fun i s _ => (s.within P.world).step_tells⟩
  rw [h.lockedBy (World.mem_told.2 ⟨he, rfl⟩)]
  cases e with
  | exhausted cursor =>
    exact ⟨iff_of_true ⟨t, List.mem_singleton.2 rfl⟩ ⟨cursor, rfl⟩, fun u hu => List.mem_singleton.1 hu, rfl⟩
  | reserved id | popped id | added id | set id | released id removed =>
    exact ⟨iff_of_false (fun ⟨u, hu⟩ => List.not_mem_nil hu) nofun, fun u hu => absurd hu List.not_mem_nil, rfl⟩

end Pool

/-! ### A registry is drained -/

open Config

variable {w w' : World α} {t : Thread} {n : CellId} {cell cell' : Cell α} {h : Handle} {ids : List SlotId}

/-- Reserves ids one after the other, whatever comes of it. -/
def claims (h : Handle) : Nat → Program α
  | 0 => .idle
  | n + 1 => .call (.reserve h) fun _ => claims h n

theorem World.verbosity_emit {e : Event} {lock : Lock} : (w.emit e n t lock).verbosity = w.verbosity := by
  unfold World.emit
  split <;> rfl

theorem Ready.of_cells (hr : Ready w h n cell) (handles : w'.handles = w.handles)
    (cells : w'.cells = w.cells.set n cell') (lock : cell'.lock = cell.lock)
    (detector : cell'.detector = cell.detector) (owners : cell'.owners = cell.owners) : Ready w' h n cell' := by
  obtain ⟨hf, hc⟩ := cellOf?_eq_some hr.here
  refine ⟨?_, lock.trans hr.lock, fun t => detector ▸ hr.outside t, owners ▸ hr.owners⟩
  rw [World.cellOf?, World.find?, handles, show w.handles.lookup h = some n from hf, Option.bind_some, cells,
    List.getElem?_set_self (List.getElem?_eq_some_iff.1 hc).1]
  rfl

/-- Who reserves until none is left tells so under the lock. -/
theorem reaches_claims {r s : Registry (Stored α)} (hdrains : r.Drains ids s) : ∀ {w : World α} {cell : Cell α},
    Ready w h n cell → cell.registry = r → w.verbosity.shows (.exhausted s.cursor) →
    ∃ w', Reaches ⟨w, t, .running (claims h (ids.length + 1)), []⟩ ⟨w', t, .running .idle, []⟩ ∧
      Entry.event (.exhausted s.cursor) n t (.shared [t]) ∈ w'.journal := by
  induction hdrains with
  | stop refused =>
    intro w cell hr hreg shown
    subst hreg
    refine ⟨_, .tail (serves_reserve_error hr refused _), ?_⟩
    rw [World.put, World.emit, if_pos shown]
    exact List.mem_cons_self
  | @next r s t' id ids granted rest ih =>
    intro w cell hr hreg shown
    subst hreg
    let w₁ := (w.emit (.reserved id) n t .free).put n (cell.withRegistry s)
    have hready : Ready w₁ h n (cell.withRegistry s) :=
      hr.of_cells World.handles_emit (congrArg (List.set · n _) World.cells_emit) rfl rfl rfl
    have hverbosity : w₁.verbosity = w.verbosity := World.verbosity_emit
    obtain ⟨w', hreaches, hmem⟩ := ih hready rfl (hverbosity ▸ shown)
    exact ⟨w', (Reaches.tail (serves_reserve_ok hr granted _)).trans hreaches, hmem⟩

namespace Pool

/-- A run of one strand is a run of the pool that has no other. -/
theorem reaches_of_alone {c d : Config α} (h : Config.Reaches c d) (hd : d.isBlocked = false) :
    Reaches ⟨c.world, [c.strand]⟩ ⟨d.world, [d.strand]⟩ := by
  induction h with
  | refl => exact .refl _
  | @tail b h ih =>
    have hb : b.isBlocked = false := by
      cases hb : b.control with
      | blocked =>
        rw [show b.step = b by unfold Config.step; rw [hb]] at hd
        exact hd
      | _ => rw [isBlocked, hb]
    have hstep : step ⟨b.world, [b.strand]⟩ 0 = ⟨b.step.world, [b.step.strand]⟩ := by
      rw [step_of_getElem? (s := b.strand) rfl]
      exact if_neg (by rw [show (b.strand.within b.world).step.isBlocked = false from hd]; exact Bool.false_ne_true)
    exact hstep ▸ .tail (ih hb) 0

/-- A registry is created, and one more id is reserved from it than there are. -/
def claimsAll : Program String := .call (.create (.named "a")) fun _ => claims (.named "a") (SlotId.count + 1)

/-- The last of the reservations is refused, and who tells so holds the lock. -/
theorem told_under_the_lock_when_drained :
    ∃ P cursor lock, Reaches (start .debug [claimsAll]) P ∧
      Entry.event (.exhausted cursor) 0 0 lock ∈ P.world.journal ∧ lock.heldBy 0 := by
  have habsent : ∃ x, x ≠ (Registry.empty : Registry (Stored String)).cursor ∧
      (Registry.empty : Registry (Stored String)).slot? x = none := ⟨1, by decide, Registry.slot?_empty⟩
  obtain ⟨s, hdrains⟩ := Registry.drains_absentIds habsent
  have hlength := Registry.length_absentIds_add_size (Registry.empty : Registry (Stored String))
  rw [show (Registry.empty : Registry (Stored String)).size = 0 from Std.ExtTreeMap.size_empty, Nat.add_zero] at hlength
  have hcreate : Serves (World.empty .debug) 0 (.create (.named "a")) .done
      ((World.empty .debug : World String).create.2.rebind (.named "a") 0) := serves_create nofun
  have hready : Ready ((World.empty .debug : World String).create.2.rebind (.named "a") 0) (.named "a") 0 .fresh :=
    (hcreate.quiet (quiet_empty .debug)).ready rfl
  obtain ⟨w, hclaims, he⟩ := reaches_claims (t := 0) hdrains hready rfl rfl
  rw [hlength] at hclaims
  have hP : Reaches (start .debug [claimsAll]) ⟨w, [⟨0, .running .idle, []⟩]⟩ :=
    reaches_of_alone (c := initial (World.empty .debug) claimsAll) ((Config.Reaches.tail (hcreate _)).trans hclaims)
      rfl
  obtain ⟨hheld, hown, -⟩ := (told_under_the_lock_iff_exhausted hP).1 _ _ _ _ he
  obtain ⟨u, hu⟩ := hheld.2 ⟨_, rfl⟩
  exact ⟨_, _, _, hP, he, hown u hu ▸ hu⟩

end Pool

end SlotRegistry
