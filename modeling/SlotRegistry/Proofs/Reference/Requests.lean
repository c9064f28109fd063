import SlotRegistry.Proofs.Reference.Serve
/-!
# Requests — what each request comes to

Between calls that are not nested in one another no call is unfinished, so every lock is free and nobody is inside
anywhere (`World.Quiet`).  A request made then is served (`Serves`); the lemmas give the reply and the cells that are
left, from the slots of the cell.
-/
namespace SlotRegistry

variable {α : Type}

/-- No call is unfinished: the accounts of cells and handles are in order with nothing on the stack. -/
def World.Quiet (w : World α) : Prop :=
  Ledger.Sound Eq (fun _ => []) ⟨w.cells, w.handles, 0, w.threads, [], none⟩

/-- A call of a thread is served: whatever follows it, it comes to `x` and leaves the world `w'`. -/
def Serves (w : World α) (t : Thread) (call : Call α (Program α)) (x : Outcome α) (w' : World α) : Prop :=
  ∀ next, Config.Reaches ⟨w, t, .running (.call call next), []⟩ ⟨w', t, .replying x next, []⟩

/-- A call is served and leaves the handles as they were, and these cells. -/
def Yields (w : World α) (t : Thread) (call : Call α (Program α)) (x : Outcome α) (cells : List (Cell α)) : Prop :=
  ∃ w', Serves w t call x w' ∧ w'.handles = w.handles ∧ w'.cells = cells

section Quiet

variable {w w' : World α} {t : Thread} {call : Call α (Program α)} {x : Outcome α} {n : CellId} {cell : Cell α}

theorem quiet_empty (v : Verbosity) : (World.empty v : World α).Quiet :=
  Ledger.sound_of_nil tracks_eq rfl rfl rfl rfl

theorem Serves.quiet (h : Serves w t call x w') (hw : w.Quiet) : w'.Quiet := by
  have hr : Ledger.Sound Eq (fun _ => []) _ := (h fun _ => .idle).sound tracks_eq ⟨hw.tallies, nofun, nofun⟩
  exact ⟨hr.tallies, nofun, nofun⟩

theorem World.Quiet.lock (hw : w.Quiet) (hc : w.cells[n]? = some cell) : cell.lock = .free := by
  have h := hw.tallies n
  rw [Ledger.cellAt_of_getElem? hc] at h
  exact Lock.ext_holders h.readers h.writers

theorem World.Quiet.outside (hw : w.Quiet) (hc : w.cells[n]? = some cell) (t : Thread) : t ∉ cell.detector.inside := by
  have h := (hw.tallies n).inside
  rw [Ledger.cellAt_of_getElem? hc] at h
  rw [h]
  exact List.not_mem_nil

theorem World.Quiet.owners (hw : w.Quiet) (hc : w.cells[n]? = some cell) (hb : ∃ b ∈ w.handles, b.2 = n) :
    cell.owners ≠ 0 := by
  obtain ⟨b, hb, rfl⟩ := hb
  exact Ledger.Sound.owners_ne_zero_of_inUse hw hc (.inl ⟨b.1, hb⟩)

end Quiet

section Serving

variable {w w' : World α} {t : Thread} {call : Call α (Program α)} {x : Outcome α} {n : CellId} {cell : Cell α}
  {h : Handle} {id : SlotId} {why : Refusal} {r : Registry (Stored α)} {v : α} {s : Stored α}

open Config

theorem reaches_of_eq {c d : Config α} (hcd : c = d) : Reaches c d := hcd ▸ .refl c

theorem serves_of_perform
    (hr : ∀ next, Reaches (perform ⟨w, t, .running (.call call next), []⟩ next call) ⟨w', t, .replying x next, []⟩) :
    Serves w t call x w' := fun next => Reaches.step_left (hr next)

theorem withCell_of_some {c : Config α} {next : Outcome α → Program α} {act : CellId → Cell α → Config α}
    (hw : c.world.cellOf? h = some (n, cell)) : c.withCell h next act = act n cell := by rw [withCell, hw]

theorem withCell_of_none {c : Config α} {next : Outcome α → Program α} {act : CellId → Cell α → Config α}
    (hw : c.world.cellOf? h = none) : c.withCell h next act = c.reply .noHandle next := by rw [withCell, hw]

theorem World.handles_emit {e : Event} {lock : Lock} : (w.emit e n t lock).handles = w.handles := by
  unfold World.emit
  split <;> rfl

theorem World.cells_emit {e : Event} {lock : Lock} : (w.emit e n t lock).cells = w.cells := by
  unfold World.emit
  split <;> rfl

/-- A cell that is changed twice and put back as it was. -/
theorem World.cells_put_back {a b : Cell α} (hc : w.cells[n]? = some cell) :
    (((w.put n a).put n b).put n cell).cells = w.cells := by
  change ((w.cells.set n a).set n b).set n cell = w.cells
  rw [List.set_set, List.set_set, set_of_getElem? hc]

/-- A handle belongs to the cell `n`, which nobody is inside and nobody has locked. -/
structure Ready (w : World α) (h : Handle) (n : CellId) (cell : Cell α) : Prop where
  here : w.cellOf? h = some (n, cell)
  lock : cell.lock = .free
  outside : ∀ t : Thread, t ∉ cell.detector.inside
  owners : cell.owners ≠ 0

theorem Ready.shared (hr : Ready w h n cell) : cell.lock = .shared [] := hr.lock

theorem Ready.found (hr : Ready w h n cell) : w.cells[n]? = some cell := (cellOf?_eq_some hr.here).2

theorem World.Quiet.ready (hw : w.Quiet) (hc : w.cellOf? h = some (n, cell)) : Ready w h n cell := by
  obtain ⟨hf, hc'⟩ := cellOf?_eq_some hc
  exact ⟨hc, hw.lock hc', hw.outside hc', hw.owners hc' ⟨(h, n), mem_of_find? hf, rfl⟩⟩

theorem yields_put (w₁ : World α) (e : Event) (lock : Lock) {cell' : Cell α} (hh : w₁.handles = w.handles)
    (hc : w₁.cells = w.cells) (hs : Serves w t call x ((w₁.emit e n t lock).put n cell')) :
    Yields w t call x (w.cells.set n cell') := by
  refine ⟨_, hs, World.handles_emit.trans hh, ?_⟩
  rw [World.put, World.cells_emit, hc]

theorem yields_put_self (hc : w.cells[n]? = some cell) (hs : Serves w t call x (w.put n cell)) :
    Yields w t call x w.cells := ⟨_, hs, rfl, set_of_getElem? hc⟩

theorem serves_reserve_ok (hr : Ready w h n cell) (hreg : cell.registry.reserve = .ok (id, r)) :
    Serves w t (.reserve h) (.reserved ⟨id, n⟩) ((w.emit (.reserved id) n t .free).put n (cell.withRegistry r)) := by
  refine serves_of_perform fun next => ?_
  rw [perform, withCell_of_some hr.here, reserve_of_ok (hr.outside t) hr.lock hreg]
  exact .refl _

theorem serves_reserve_error (hr : Ready w h n cell) (hreg : cell.registry.reserve = .error why) :
    Serves w t (.reserve h) (.refused why)
      ((w.emit (.exhausted cell.registry.cursor) n t (.shared [t])).put n cell) := by
  refine serves_of_perform fun next => ?_
  rw [perform, withCell_of_some hr.here, reserve_of_error (hr.outside t) hr.lock hreg]
  exact .refl _

theorem yields_reserve_ok (hr : Ready w h n cell) (hreg : cell.registry.reserve = .ok (id, r)) :
    Yields w t (.reserve h) (.reserved ⟨id, n⟩) (w.cells.set n (cell.withRegistry r)) :=
  yields_put w (.reserved id) .free rfl rfl (serves_reserve_ok hr hreg)

theorem yields_reserve_error (hr : Ready w h n cell) (hreg : cell.registry.reserve = .error why) :
    Yields w t (.reserve h) (.refused why) w.cells :=
  set_of_getElem? hr.found ▸
    yields_put w (.exhausted cell.registry.cursor) (.shared [t]) rfl rfl (serves_reserve_error hr hreg)

section Store

variable {bind : Registry (Stored α) → SlotId → Stored α → Except Refusal (Registry (Stored α))} {event : Event}
  (answer : CellId → Outcome α)

theorem yields_store_ok (hr : Ready w h n cell) (hreg : bind cell.registry id ⟨w.handed, .plain v⟩ = .ok r)
    (hcall : ∀ (c : Config α) next, c.perform next call =
      c.withCell h next fun n cell => c.store n cell id (.plain v) bind event (answer n) next) :
    Yields w t call (answer n) (w.cells.set n (cell.withRegistry r)) := by
  refine yields_put (w.handOver (.plain v) n id).2 event .free rfl rfl
    (serves_of_perform fun next => ?_)
  rw [hcall, withCell_of_some hr.here, store_of_ok (hr.outside t) hr.lock hreg]
  exact .refl _

/-- A value that is refused is destroyed first, under the lock. -/
theorem yields_store_error (hr : Ready w h n cell) (hreg : bind cell.registry id ⟨w.handed, .plain v⟩ = .error why)
    (hcall : ∀ (c : Config α) next, c.perform next call =
      c.withCell h next fun n cell => c.store n cell id (.plain v) bind event (answer n) next) :
    Yields w t call (.refused why) w.cells := by
  let w₁ := (w.handOver (.plain v) n id).2.put n (cell.heldForWriting t).addOwner
  have hn := (List.getElem?_eq_some_iff.1 hr.found).1
  refine ⟨((w₁.log (.destroyed w.handed)).put n cell.addOwner).put n cell, serves_of_perform fun next => ?_, rfl, ?_⟩
  · rw [hcall, withCell_of_some hr.here, store_of_error (hr.outside t) hr.lock hreg]
    refine Reaches.step_left ?_
    rw [destroy, run, step_of_idle_code (by rfl)]
    exact reaches_of_eq (endWriting_of_held (c := ⟨w₁.log (.destroyed w.handed), t, .running .idle, []⟩) hr.owners hr.lock
      (List.getElem?_set_self hn))
  · exact World.cells_put_back (w := w) hr.found

end Store

theorem yields_pop_ok (hr : Ready w h n cell) (hreg : cell.registry.take id = .ok (s, r)) :
    Yields w t (.pop h id) (.popped s.serial s.value.payload) (w.cells.set n (cell.withRegistry r)) := by
  refine ⟨((w.emit (.popped id) n t .free).put n (cell.withRegistry r)).giveBack s,
    serves_of_perform fun next => ?_, World.handles_emit, congrArg (List.set · n _) World.cells_emit⟩
  rw [perform, withCell_of_some hr.here, pop_of_ok (hr.outside t) hr.lock hreg]
  exact .refl _

theorem yields_pop_error (hr : Ready w h n cell) (hreg : cell.registry.take id = .error why) :
    Yields w t (.pop h id) (.refused why) w.cells := by
  refine yields_put_self hr.found (serves_of_perform fun next => ?_)
  rw [perform, withCell_of_some hr.here, pop_of_error (hr.outside t) hr.lock hreg]
  exact .refl _

theorem yields_query {answer : Registry (Stored α) → Outcome α} (hr : Ready w h n cell)
    (hcall : ∀ (c : Config α) next, c.perform next call =
      c.withCell h next fun n cell => c.query n cell answer next) :
    Yields w t call (answer cell.registry) w.cells := by
  refine yields_put_self hr.found (serves_of_perform fun next => ?_)
  rw [hcall, withCell_of_some hr.here, query_of_shared (hr.outside t) hr.shared]
  exact .refl _

theorem yields_get (hr : Ready w h n cell) (hp : cell.registry.Plain) :
    Yields w t (.get h id) (.found (cell.payload? id)) w.cells := by
  cases hs : cell.registry.get? id with
  | none =>
    refine yields_put_self hr.found (serves_of_perform fun next => ?_)
    rw [perform, withCell_of_some hr.here, get_of_none (hr.outside t) hr.shared hs, Cell.payload?, hs]
    exact .refl _
  | some s =>
    have hv := hp id s (Registry.get?_eq_some.1 hs)
    refine ⟨((w.put n (cell.heldForReading t []).addOwner).put n cell.addOwner).put n cell,
      serves_of_perform fun next => ?_, rfl, ?_⟩
    · rw [perform, withCell_of_some hr.here, get_of_some (hr.outside t) hr.shared hs, Cell.payload?, hs]
      refine Reaches.step_left ?_
      rw [run, step_of_idle_code (by rw [hv]; rfl)]
      exact reaches_of_eq (endReading_of_held (c := ⟨w.put n (cell.heldForReading t []).addOwner, t, .running .idle, []⟩)
        hr.owners hr.shared (List.getElem?_set_self (List.getElem?_eq_some_iff.1 hr.found).1))
    · exact World.cells_put_back hr.found

theorem yields_walk {goesOn : Array (Visit α) → SlotId → Option α → Bool} (hr : Ready w h n cell) :
    Yields w t (.walk h (visitor goesOn))
      (.walked (tour goesOn #[] (cell.registry.ids.map fun id => (id, cell.payload? id)))) w.cells := by
  refine ⟨((w.put n (cell.heldForReading t []).addOwner).put n cell.addOwner).put n cell,
    serves_of_perform fun next => ?_, rfl, ?_⟩
  · rw [perform, withCell_of_some hr.here, walk_of_shared (hr.outside t) hr.shared]
    exact reaches_walkOn hr.owners hr.shared _ _ _
      (List.getElem?_set_self (List.getElem?_eq_some_iff.1 hr.found).1)
  · exact World.cells_put_back (w := w) hr.found

theorem yields_noHandle (hw : w.cellOf? h = none) {act : Config α → (Outcome α → Program α) → CellId → Cell α → Config α}
    (hcall : ∀ (c : Config α) next, c.perform next call = c.withCell h next (act c next)) :
    Yields w t call .noHandle w.cells := by
  refine ⟨w, serves_of_perform fun next => ?_, rfl, rfl⟩
  rw [hcall, withCell_of_none hw]
  exact .refl _

/-! ### Releases -/

section Release

variable {ticket : Ticket}

theorem yields_release_gone (hc : ∀ cell, w.cells[ticket.cell]? = some cell → cell.owners = 0) :
    Yields w t (.release ticket) .done w.cells := by
  refine ⟨w, serves_of_perform fun next => ?_, rfl, rfl⟩
  cases hcell : w.cells[ticket.cell]? with
  | none => exact reaches_of_eq (release_of_missing hcell)
  | some cell => exact reaches_of_eq (release_of_dead hcell (hc cell hcell))

/-- A value that is removed is destroyed when lock and detector have been left. -/
theorem yields_release (hq : w.Quiet) (hc : w.cells[ticket.cell]? = some cell) (ho : cell.owners ≠ 0)
    (hp : cell.registry.Plain) :
    Yields w t (.release ticket) .done
      (w.cells.set ticket.cell (cell.withRegistry (cell.registry.remove ticket.id))) := by
  have hl := hq.lock hc
  have hin := hq.outside hc t
  by_cases hs : ∃ v, cell.registry.slot? ticket.id = some (.occupied v)
  · obtain ⟨v, hs⟩ := hs
    let after := cell.withRegistry (cell.registry.remove ticket.id)
    let told := (w.emit (.released ticket.id true) ticket.cell t .free).log (.destroyed v.serial)
    have hcells : told.cells = w.cells := World.cells_emit
    refine ⟨(told.put ticket.cell after.addOwner).put ticket.cell after, serves_of_perform fun next => ?_,
      World.handles_emit, ?_⟩
    · rw [perform, release_of_occupied hc ho hin hl hs]
      refine Reaches.step_left ?_
      rw [destroy, run, step_of_idle_code (by rw [hp _ _ hs]; rfl)]
      refine reaches_of_eq (letGo_addOwner (c := ⟨told, t, .running .idle, []⟩) after ?_ ho)
      rw [hcells]
      exact (List.getElem?_eq_some_iff.1 hc).1
    · change (told.cells.set _ _).set _ after = _
      rw [List.set_set, hcells]
  · refine yields_put w (.released ticket.id (cell.registry.slot? ticket.id).isSome) .free rfl rfl
      (serves_of_perform fun next => ?_)
    rw [perform, release_of_not_occupied hc ho hin hl (fun v hv => hs ⟨v, hv⟩)]
    exact .refl _

end Release

/-! ### Handles -/

/-- The world once a handle has come to belong to a cell; the cell it belonged to has an owner less. -/
def World.rebind (w : World α) (h : Handle) (n : CellId) : World α :=
  match w.find? h with
  | none => w.bind h n
  | some m => (w.bind h n).letGo m

theorem handles_rebind : (w.rebind h n).handles = (w.bind h n).handles := by
  unfold World.rebind
  split
  · rfl
  · exact World.handles_letGo

theorem leaves_rebind : w.Leaves (w.rebind h n) := by
  have hbind : w.Leaves (w.bind h n) := ⟨rfl, fun _ cell hc ho => ⟨cell, hc, ho, rfl⟩⟩
  unfold World.rebind
  split
  · exact hbind
  · exact hbind.trans World.leaves_letGo

theorem reaches_rebind {c : Config α} {next : Outcome α → Program α}
    (hp : ∀ m cell, c.world.find? h = some m → c.world.cells[m]? = some cell → cell.registry.Plain) :
    Reaches (c.rebind h n .done next) ⟨c.world.rebind h n, c.thread, .replying .done next, c.stack⟩ := by
  unfold rebind World.rebind
  cases hf : c.world.find? h with
  | none => exact .refl _
  | some m => exact reaches_letGo (c := { c with world := c.world.bind h n }) (fun cell hc => hp m cell hf hc)

theorem serves_create (hp : ∀ m cell, w.find? h = some m → w.cells[m]? = some cell → cell.registry.Plain) :
    Serves w t (.create h) .done (w.create.2.rebind h w.cells.length) := by
  refine serves_of_perform fun next => ?_
  refine reaches_rebind (c := ⟨w.create.2, t, .running (.call (.create h) next), []⟩) (fun m cell hf hc => ?_)
  change (w.cells ++ [Cell.fresh])[m]? = some cell at hc
  rw [List.getElem?_append] at hc
  split at hc
  · exact hp m cell hf hc
  · obtain rfl := List.mem_singleton.1 (List.mem_of_getElem? hc)
    exact Registry.shows_empty.plain

theorem serves_share (target : Handle) (hr : Ready w h n cell)
    (hp : ∀ m cell, w.find? target = some m → w.cells[m]? = some cell → cell.registry.Plain) :
    Serves w t (.share h target) .done ((w.put n cell.addOwner).rebind target n) := by
  refine serves_of_perform fun next => ?_
  rw [perform, withCell_of_some hr.here]
  refine reaches_rebind (c := ⟨w.put n cell.addOwner, t, .running (.call (.share h target) next), []⟩)
    (fun m other hf hc => ?_)
  change (w.cells.set n cell.addOwner)[m]? = some other at hc
  by_cases hm : n = m
  · subst hm
    rw [List.getElem?_set_self (List.getElem?_eq_some_iff.1 hr.found).1] at hc
    cases hc
    exact hp n cell hf hr.found
  · rw [List.getElem?_set_ne hm] at hc
    exact hp m other hf hc

theorem serves_giveUp (hr : Ready w h n cell) (hp : cell.registry.Plain) :
    Serves w t (.giveUp h) .done ((w.unbind h).letGo n) := by
  refine serves_of_perform fun next => ?_
  rw [perform, withCell_of_some hr.here]
  refine reaches_letGo (c := ⟨w.unbind h, t, .running (.call (.giveUp h) next), []⟩) (fun other hc => ?_)
  rw [show (w.unbind h).cells[n]? = some cell from hr.found] at hc
  cases hc
  exact hp

end Serving

end SlotRegistry
