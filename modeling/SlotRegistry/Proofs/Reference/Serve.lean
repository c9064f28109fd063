import SlotRegistry.Proofs.Machine.Extent
import SlotRegistry.Proofs.Reference.Managers
/-!
# Serve — user code that makes no calls

Where the user code inside a call makes no calls itself, the call runs to its end by itself: a cell that loses its last
owner is cleared, a walk shows one entry after the other.  The lemmas give the world that is left.
-/
namespace SlotRegistry

variable {α : Type}

namespace World

/-! ### Letting go where no user code is left -/

/-- The world once some ids of a cell have been cleared. -/
def clear (w : World α) (n : CellId) : List SlotId → World α
  | [] => w
  | id :: ahead =>
    match w.cells[n]? with
    | none => w
    | some cell =>
      match cell.registry.get? id with
      | some s => ((w.put n (cell.withRegistry (cell.registry.remove id))).log (.destroyed s.serial)).clear n ahead
      | none => (w.put n (cell.withRegistry (cell.registry.remove id))).clear n ahead

/-- The world once an owner of a cell is gone, and the cell with it if that was the last one. -/
def letGo (w : World α) (n : CellId) : World α :=
  match w.cells[n]? with
  | none => w
  | some cell =>
    if cell.owners = 1 then ((w.put n { cell with owners := 0 }).log (.closed n)).clear n cell.registry.ids
    else w.put n { cell with owners := cell.owners - 1 }

/-- One world has the cells of another, and what still has owners has its registry. -/
structure Leaves (w w' : World α) : Prop where
  length : w'.cells.length = w.cells.length
  registry : ∀ (n : CellId) (cell' : Cell α), w'.cells[n]? = some cell' → cell'.owners ≠ 0 →
    ∃ cell : Cell α, w.cells[n]? = some cell ∧ cell.owners ≠ 0 ∧ cell'.registry = cell.registry

variable {w w' : World α} {n : CellId} {cell cell' : Cell α}

theorem Leaves.refl (w : World α) : Leaves w w := ⟨rfl, fun _ cell h ho => ⟨cell, h, ho, rfl⟩⟩

theorem Leaves.trans {w'' : World α} (h : Leaves w w') (h' : Leaves w' w'') : Leaves w w'' := by
  refine ⟨h'.length.trans h.length, fun n cell'' hc ho => ?_⟩
  obtain ⟨cell', hc', ho', hr'⟩ := h'.registry n cell'' hc ho
  obtain ⟨cell, hc, ho, hr⟩ := h.registry n cell' hc' ho'
  exact ⟨cell, hc, ho, hr'.trans hr⟩

theorem leaves_put {b : Cell α} (hc : w.cells[n]? = some cell)
    (h : b.owners ≠ 0 → cell.owners ≠ 0 ∧ b.registry = cell.registry) : Leaves w (w.put n b) := by
  have hn := (List.getElem?_eq_some_iff.1 hc).1
  refine ⟨List.length_set, fun k other hk ho => ?_⟩
  by_cases hnk : n = k
  · subst hnk
    rw [put, List.getElem?_set_self hn] at hk
    cases hk
    exact ⟨cell, hc, h ho⟩
  · rw [put, List.getElem?_set_ne hnk] at hk
    exact ⟨other, hk, ho, rfl⟩

theorem leaves_log {e : Entry α} : Leaves w (w.log e) := ⟨rfl, fun _ cell h ho => ⟨cell, h, ho, rfl⟩⟩

theorem leaves_clear : ∀ (ahead : List SlotId) (w : World α),
    (∀ cell, w.cells[n]? = some cell → cell.owners = 0) → Leaves w (w.clear n ahead)
  | [], w, _ => Leaves.refl w
  | id :: ahead, w, hw => by
    unfold clear
    split
    · exact Leaves.refl w
    · rename_i cell hc
      have hput : Leaves w (w.put n (cell.withRegistry (cell.registry.remove id))) :=
        leaves_put hc (fun ho => absurd (hw cell hc) ho)
      have hdead : ∀ other, (w.put n (cell.withRegistry (cell.registry.remove id))).cells[n]? = some other →
          other.owners = 0 := by
        intro other h
        rw [put, List.getElem?_set_self (List.getElem?_eq_some_iff.1 hc).1] at h
        cases h
        exact hw cell hc
      split
      · exact (hput.trans leaves_log).trans (leaves_clear ahead _ hdead)
      · exact hput.trans (leaves_clear ahead _ hdead)

theorem leaves_letGo : Leaves w (w.letGo n) := by
  unfold letGo
  split
  · exact Leaves.refl w
  · rename_i cell hc
    split
    · refine ((leaves_put (b := { cell with owners := 0 }) hc (fun ho => absurd rfl ho)).trans leaves_log).trans
        (leaves_clear _ _ ?_)
      intro other h
      rw [log, put, List.getElem?_set_self (List.getElem?_eq_some_iff.1 hc).1] at h
      cases h
      rfl
    · rename_i ho
      refine leaves_put hc (fun hne => ⟨fun hz => ?_, rfl⟩)
      simp only [hz] at hne
      omega

theorem handles_clear : ∀ (ahead : List SlotId) (w : World α), (w.clear n ahead).handles = w.handles
  | [], _ => rfl
  | id :: ahead, w => by
    unfold clear
    split
    · rfl
    · split
      · rw [handles_clear ahead]; rfl
      · rw [handles_clear ahead]; rfl

theorem handles_letGo : (w.letGo n).handles = w.handles := by
  unfold letGo
  split
  · rfl
  · split
    · rw [handles_clear]; rfl
    · rfl

end World

namespace Config

variable {c : Config α} {n : CellId} {x : Outcome α} {next : Outcome α → Program α}

theorem resume_tearing {ahead : List SlotId} {report : Option (List (Answer α))} :
    c.resume (.tearing n ahead x) next .goOn report = { c with control := .tearing n ahead x next } := by
  cases x <;> rfl

section Clear

variable {cell : Cell α} {id : SlotId} {ahead : List SlotId} {v : Stored α} {w : World α}

theorem clear_of_missing (hc : w.cells[n]? = none) : w.clear n ahead = w := by
  cases ahead with
  | nil => rfl
  | cons id ahead => rw [World.clear, hc]

theorem clear_of_value (hc : w.cells[n]? = some cell) (hs : cell.registry.get? id = some v) :
    w.clear n (id :: ahead) =
      ((w.put n (cell.withRegistry (cell.registry.remove id))).log (.destroyed v.serial)).clear n ahead := by
  rw [World.clear, hc]
  simp only [hs]

theorem clear_of_none (hc : w.cells[n]? = some cell) (hs : cell.registry.get? id = none) :
    w.clear n (id :: ahead) = (w.put n (cell.withRegistry (cell.registry.remove id))).clear n ahead := by
  rw [World.clear, hc]
  simp only [hs]

theorem step_of_idle_code {s : Scope α} {w : World α} {t : Thread} {p : Program α} {stack : List (Frame α)}
    (hp : p = .idle) :
    (⟨w, t, .running p, .call s next :: stack⟩ : Config α).step =
      (⟨w, t, .running .idle, stack⟩ : Config α).resume s next .goOn none := by
  rw [hp]
  exact step_of_finish rfl rfl

/-- A cell of plain values is cleared. -/
theorem reaches_clear : ∀ (ahead : List SlotId) (c : Config α), c.control = .tearing n ahead x next →
    (∀ cell, c.world.cells[n]? = some cell → cell.registry.Plain) →
    Reaches c ⟨c.world.clear n ahead, c.thread, .replying x next, c.stack⟩
  | [], c, hc, _ => by
    refine Reaches.step_left ?_
    rw [show c.step = c.reply x next by rw [step, hc]; rfl]
    exact .refl _
  | id :: ahead, c, hc, hp => by
    refine Reaches.step_left ?_
    rw [show c.step = c.tearOn n (id :: ahead) x next by rw [step, hc]]
    cases hcell : c.world.cells[n]? with
    | none =>
      rw [tearOn_of_missing hcell, clear_of_missing hcell]
      exact .refl _
    | some cell =>
      have hplain : ∀ other, (c.world.put n (cell.withRegistry (cell.registry.remove id))).cells[n]? = some other →
          other.registry.Plain := by
        intro other h
        rw [World.put, List.getElem?_set_self (List.getElem?_eq_some_iff.1 hcell).1] at h
        cases h
        exact (hp cell hcell).remove
      cases hs : cell.registry.get? id with
      | none =>
        rw [tearOn_of_none hcell hs, clear_of_none hcell hs]
        exact reaches_clear ahead { c.put n _ with control := .tearing n ahead x next } rfl hplain
      | some v =>
        have hv := hp cell hcell id v (Registry.get?_eq_some.1 hs)
        rw [tearOn_of_value hcell hs, clear_of_value hcell hs]
        refine Reaches.step_left ?_
        rw [destroy, run, step_of_idle_code (by rw [hv]; rfl), resume_tearing]
        exact reaches_clear ahead
          ⟨(c.world.put n (cell.withRegistry (cell.registry.remove id))).log (.destroyed v.serial), c.thread,
            .tearing n ahead x next, c.stack⟩ rfl hplain

end Clear

theorem reaches_letGo (hp : ∀ cell, c.world.cells[n]? = some cell → cell.registry.Plain) :
    Reaches (c.letGo n x next) ⟨c.world.letGo n, c.thread, .replying x next, c.stack⟩ := by
  unfold letGo World.letGo
  cases hcell : c.world.cells[n]? with
  | none => exact .refl _
  | some cell =>
    dsimp only
    split
    · refine reaches_clear _ _ rfl (fun other h => ?_)
      change (c.world.cells.set n { cell with owners := 0 })[n]? = some other at h
      rw [List.getElem?_set_self (List.getElem?_eq_some_iff.1 hcell).1] at h
      cases h
      exact hp cell hcell
    · exact .refl _

/-! ### A call that held a cell is over -/

section Held

variable {cell : Cell α}

theorem letGo_addOwner (cell : Cell α) (hn : n < c.world.cells.length) (ho : cell.owners ≠ 0) :
    (c.put n cell.addOwner).letGo n x next = ((c.put n cell.addOwner).put n cell).reply x next := by
  have hc : (c.put n cell.addOwner).world.cells[n]? = some cell.addOwner := List.getElem?_set_self hn
  rw [letGo, hc]
  exact if_neg (fun h => ho (Nat.succ.inj h))

theorem endReading_of_held {readers : List Thread} (ho : cell.owners ≠ 0) (hl : cell.lock = .shared readers)
    (hc : c.world.cells[n]? = some (cell.heldForReading c.thread readers).addOwner) :
    c.endReading n x next = ((c.put n cell.addOwner).put n cell).reply x next := by
  have hleave : ((cell.heldForReading c.thread readers).addOwner.endRead c.thread).leave c.thread = cell.addOwner :=
    congrArg Cell.addOwner (Cell.endRead_leave_heldForReading hl)
  rw [endReading, hc]
  simp only [hleave]
  exact letGo_addOwner cell (List.getElem?_eq_some_iff.1 hc).1 ho

theorem endWriting_of_held (ho : cell.owners ≠ 0) (hl : cell.lock = .free)
    (hc : c.world.cells[n]? = some (cell.heldForWriting c.thread).addOwner) :
    c.endWriting n x next = ((c.put n cell.addOwner).put n cell).reply x next := by
  have hleave : (cell.heldForWriting c.thread).addOwner.endWrite.leave c.thread = cell.addOwner :=
    congrArg Cell.addOwner (Cell.endWrite_leave_heldForWriting_self hl)
  rw [endWriting, hc]
  simp only [hleave]
  exact letGo_addOwner cell (List.getElem?_eq_some_iff.1 hc).1 ho

/-- A walk whose visitor makes no calls shows the values as they are, one after the other, and is over. -/
theorem reaches_walkOn {readers : List Thread} (ho : cell.owners ≠ 0) (hl : cell.lock = .shared readers)
    {goesOn : Array (Visit α) → SlotId → Option α → Bool} :
    ∀ (ahead : List SlotId) (visits : Array (Visit α)) (c : Config α),
      c.world.cells[n]? = some (cell.heldForReading c.thread readers).addOwner →
      Reaches (c.walkOn n (visitor goesOn) visits ahead next)
        (((c.put n cell.addOwner).put n cell).reply
          (.walked (tour goesOn visits (ahead.map fun id => (id, cell.payload? id)))) next)
  | [], visits, c, hc => by
    rw [walkOn, endReading_of_held ho hl hc]
    exact .refl _
  | id :: ahead, visits, c, hc => by
    have hv : (c.world.cells[n]?).bind (·.payload? id) = cell.payload? id := by rw [hc]; rfl
    rw [walkOn, hv, List.map_cons, tour]
    refine Reaches.step_left ?_
    by_cases hgo : goesOn visits id (cell.payload? id) = true
    · have hfinish : visitor goesOn visits id (cell.payload? id) = .finish .goOn none := by rw [visitor, if_pos hgo]
      rw [run, hfinish, step_of_finish rfl rfl, if_pos hgo]
      exact reaches_walkOn ho hl ahead _ ⟨c.world, c.thread, _, c.stack⟩ hc
    · have hfinish : visitor goesOn visits id (cell.payload? id) = .finish .stop none := by rw [visitor, if_neg hgo]
      rw [run, hfinish, step_of_finish rfl rfl, if_neg hgo]
      refine (endReading_of_held (c := ⟨c.world, c.thread, _, c.stack⟩) ho hl hc) ▸ .refl _

end Held

end Config

end SlotRegistry
