import SlotRegistry.Proofs.Machine.Custody
import SlotRegistry.Proofs.Machine.Turns
import SlotRegistry.Proofs.Registry.Ring
/-!
# Conservation — what a step does to a value

A call that hands a value over stores it or destroys it.  A pop gives back the very value that it takes out; a release,
and the clearing of a cell that has lost its last owner, destroy the very value that they remove.  Nothing else moves a
value (`step_shifts`).  A value that is bound is in a cell that has owners, or in one that is being cleared and has not
come to that value yet; the only exception are cells for which the code that destroys a value raised a message while
they were being cleared (`play_tends`).
-/
namespace SlotRegistry

variable {α : Type}

namespace Config

/-! ### What may happen to a value -/

/-- The call that is made hands over the value `s` for the id of the cell `n`; its number is the next one. -/
structure HandsOver (c : Config α) (s : Stored α) (n : CellId) (id : SlotId) (next : Outcome α → Program α) : Prop where
  number : s.serial = c.world.handed
  made : ∃ call h, c.control = .running (.call call next) ∧ call.offer? = some (h, id, s.value) ∧
    c.world.find? h = some n

/-- The value that is handed over is bound to the id, where no value was, in a cell that has owners; the call is over
and has not failed. -/
structure Stores (c d : Config α) (s : Stored α) (n : CellId) (id : SlotId) (next : Outcome α → Program α) : Prop where
  vacant : c.world.valueAt n id = none
  bound : d.world.valueAt n id = some s
  alive : ¬ d.world.Dead n
  reply : ∃ x, d.control = .replying x next ∧ x.failed = false
  stack : d.stack = c.stack

/-- The value that is handed over is destroyed, in the call that refuses it or is turned away. -/
structure Refuses (c d : Config α) (s : Stored α) (n : CellId) (id : SlotId) (next : Outcome α → Program α) : Prop where
  offer : c.HandsOver s n id next
  runs : d.control = .running s.value.onDestroy
  stack : ∃ scope, scope.IsFailing n ∧ d.stack = .call scope next :: c.stack

/-- A pop of its id takes the value out, and gives it back to the program that made the call. -/
structure GivesBack (c d : Config α) (s : Stored α) (n : CellId) (id : SlotId) : Prop where
  made : ∃ h next, c.control = .running (.call (.pop h id) next) ∧ c.world.find? h = some n ∧
    d.control = .replying (.popped s.serial s.value.payload) next
  bound : c.world.valueAt n id = some s
  gone : (d.world.registryAt n).slot? id = none
  given : d.world.given = s :: c.world.given
  stack : d.stack = c.stack

/-- The value's end: the code that destroys it is about to run. -/
inductive Destroys (c d : Config α) (s : Stored α) (n : CellId) (id : SlotId) : Prop
  | refused {next : Outcome α → Program α} (refuses : c.Refuses d s n id next)
  /-- A release has removed its id. -/
  | released {next : Outcome α → Program α} (control : c.control = .running (.call (.release ⟨id, n⟩) next))
      (alive : ¬ d.world.Dead n) (bound : c.world.valueAt n id = some s)
      (gone : (d.world.registryAt n).slot? id = none) (runs : d.control = .running s.value.onDestroy)
      (stack : d.stack = .call (.discarding n) next :: c.stack)
  /-- Its cell has lost the last owner, and is being cleared. -/
  | torn {ahead : List SlotId} {x : Outcome α} {next : Outcome α → Program α}
      (control : c.control = .tearing n (id :: ahead) x next) (dead : c.world.Dead n)
      (bound : c.world.valueAt n id = some s) (gone : (d.world.registryAt n).slot? id = none)
      (runs : d.control = .running s.value.onDestroy) (stack : d.stack = .call (.tearing n ahead x) next :: c.stack)

variable {c d e : Config α} {cell : Cell α} {n m : CellId} {id x : SlotId} {k : Nat} {s s' : Stored α} {a : α}
  {hd : Handle} {y : Outcome α} {next next' : Outcome α → Program α} {call : Call α (Program α)}

theorem HandsOver.unique (h : c.HandsOver s n id next) (h' : c.HandsOver s' m x next') :
    s = s' ∧ n = m ∧ id = x ∧ next = next' := by
  obtain ⟨hnumber, call, hd, hcontrol, hoffer, hfind⟩ := h
  obtain ⟨hnumber', call', hd', hcontrol', hoffer', hfind'⟩ := h'
  obtain ⟨k, v⟩ := s
  obtain ⟨k', v'⟩ := s'
  dsimp only at hnumber hnumber' hoffer hoffer'
  subst hnumber hnumber'
  rw [hcontrol] at hcontrol'
  cases hcontrol'
  rw [hoffer] at hoffer'
  cases hoffer'
  rw [hfind] at hfind'
  cases hfind'
  exact ⟨rfl, rfl, rfl, rfl⟩

theorem not_handsOver_of_call (control : c.control = .running (.call call next)) (offer : call.offer? = none) :
    ¬ c.HandsOver s n id next' := by
  rintro ⟨-, call', h, hcontrol, hoffer, -⟩
  rw [control] at hcontrol
  cases hcontrol
  rw [offer] at hoffer
  cases hoffer

theorem not_handsOver_of_tearing {ahead : List SlotId} {x : Outcome α} (control : c.control = .tearing m ahead x next) :
    ¬ c.HandsOver s n id next' := by
  rintro ⟨-, call', h, hcontrol, -⟩
  rw [control] at hcontrol
  cases hcontrol

theorem GivesBack.not_handsOver (h : c.GivesBack d s n id) : ¬ c.HandsOver s' m x next := by
  obtain ⟨_, _, control, -⟩ := h.made
  exact not_handsOver_of_call control rfl

theorem GivesBack.not_destroys (h : c.GivesBack d s n id) : ¬ c.Destroys e s' m x := by
  obtain ⟨_, _, hcontrol, -⟩ := h.made
  intro hdestroys
  cases hdestroys with
  | refused refuses => exact h.not_handsOver refuses.offer
  | released control => rw [hcontrol] at control; cases control
  | torn control => rw [hcontrol] at control; cases control

theorem GivesBack.unique (h : c.GivesBack d s n id) (h' : c.GivesBack e s' m x) : s = s' ∧ n = m ∧ id = x := by
  obtain ⟨hd, next, hcontrol, hfind, -⟩ := h.made
  obtain ⟨hd', next', hcontrol', hfind', -⟩ := h'.made
  rw [hcontrol] at hcontrol'
  cases hcontrol'
  rw [hfind] at hfind'
  cases hfind'
  exact ⟨Option.some.inj (h.bound.symm.trans h'.bound), rfl, rfl⟩

theorem Destroys.unique (h : c.Destroys d s n id) (h' : c.Destroys e s' m x) : s = s' ∧ n = m ∧ id = x := by
  cases h with
  | refused refuses =>
    cases h' with
    | refused refuses' =>
      obtain ⟨hs, hn, hid, -⟩ := refuses.offer.unique refuses'.offer
      exact ⟨hs, hn, hid⟩
    | released control' => exact absurd refuses.offer (not_handsOver_of_call control' rfl)
    | torn control' => exact absurd refuses.offer (not_handsOver_of_tearing control')
  | released control alive bound =>
    cases h' with
    | refused refuses' => exact absurd refuses'.offer (not_handsOver_of_call control rfl)
    | released control' alive' bound' =>
      rw [control] at control'
      cases control'
      exact ⟨Option.some.inj (bound.symm.trans bound'), rfl, rfl⟩
    | torn control' => rw [control] at control'; cases control'
  | torn control dead bound =>
    cases h' with
    | refused refuses' => exact absurd refuses'.offer (not_handsOver_of_tearing control)
    | released control' => rw [control] at control'; cases control'
    | torn control' dead' bound' =>
      rw [control] at control'
      cases control'
      exact ⟨Option.some.inj (bound.symm.trans bound'), rfl, rfl⟩

/-! ### What a pop comes to -/

theorem replies_letGo {x : Outcome α} (h : (c.letGo n x next).control = .replying y next') : x = y := by
  unfold letGo at h
  split at h
  · cases h
    rfl
  · split at h
    · cases h
    · cases h
      rfl

theorem replies_rebind {x : Outcome α} (h : (c.rebind hd n x next).control = .replying y next') : x = y := by
  unfold rebind at h
  dsimp only at h
  split at h
  · cases h
    rfl
  · exact replies_letGo h

theorem replies_withCell {act : CellId → Cell α → Config α} (h : (c.withCell hd next act).control = .replying y next') :
    y = .noHandle ∨ ∃ n cell, c.world.find? hd = some n ∧ c.world.cells[n]? = some cell ∧
      (act n cell).control = .replying y next' := by
  unfold withCell at h
  split at h
  · cases h
    exact .inl rfl
  · rename_i n cell hw
    obtain ⟨hf, hc⟩ := cellOf?_eq_some hw
    exact .inr ⟨n, cell, hf, hc, h⟩

theorem replies_reading {refused : Config α} {inside : Cell α → Config α}
    (h : (c.reading cell refused inside).control = .replying y next') :
    refused.control = .replying y next' ∨ ∃ cell', (inside cell').control = .replying y next' := by
  rcases reading_cases c cell refused inside with ⟨-, hr⟩ | ⟨-, -, hr⟩ | ⟨-, readers, -, hr⟩
  · exact .inl (hr ▸ h)
  · rw [hr] at h
    cases h
  · exact .inr ⟨_, hr ▸ h⟩

/-- **Only a pop answers with a value that is given back.** -/
theorem eq_pop_of_popped (h : (c.perform next call).control = .replying (.popped k a) next') :
    ∃ hd id, call = .pop hd id := by
  -- a call on a cell comes to what is done with the cell
  have hcell : ∀ {hd act}, (c.withCell hd next act).control = .replying (.popped k a) next' →
      ∃ n cell, (act n cell).control = .replying (.popped k a) next' := by
    intro hd act h
    obtain hy | ⟨n, cell, -, -, h⟩ := replies_withCell h
    · cases hy
    · exact ⟨n, cell, h⟩
  cases call with
  | pop hd id => exact ⟨hd, id, rfl⟩
  | create => cases replies_rebind h
  | share =>
    obtain ⟨n, cell, h⟩ := hcell h
    cases replies_rebind h
  | hold =>
    obtain ⟨n, cell, h⟩ := hcell h
    cases replies_rebind h
  | giveUp =>
    obtain ⟨n, cell, h⟩ := hcell h
    cases replies_letGo h
  | inspect =>
    obtain ⟨n, cell, h⟩ := hcell h
    cases h
  | reserve =>
    obtain ⟨n, cell, h⟩ := hcell h
    simp only [Config.reserve, writing] at h
    (repeat' split at h) <;> cases h
  | add =>
    obtain ⟨n, cell, h⟩ := hcell h
    unfold store writing at h
    dsimp only at h
    (repeat' split at h) <;> cases h
  | set =>
    obtain ⟨n, cell, h⟩ := hcell h
    unfold store writing at h
    dsimp only at h
    (repeat' split at h) <;> cases h
  | get =>
    obtain ⟨n, cell, h⟩ := hcell h
    obtain h | ⟨cell', h⟩ := replies_reading h
    · cases h
    · split at h <;> cases h
  | contains =>
    obtain ⟨n, cell, h⟩ := hcell h
    obtain h | ⟨cell', h⟩ := replies_reading h <;> cases h
  | size =>
    obtain ⟨n, cell, h⟩ := hcell h
    obtain h | ⟨cell', h⟩ := replies_reading h <;> cases h
  | isEmpty =>
    obtain ⟨n, cell, h⟩ := hcell h
    obtain h | ⟨cell', h⟩ := replies_reading h <;> cases h
  | cursor =>
    obtain ⟨n, cell, h⟩ := hcell h
    obtain h | ⟨cell', h⟩ := replies_reading h <;> cases h
  | walk =>
    obtain ⟨n, cell, h⟩ := hcell h
    obtain h | ⟨cell', h⟩ := replies_reading h
    · cases h
    · unfold walkOn endReading at h
      (repeat' split at h) <;> first | cases h | cases replies_letGo h
  | release =>
    simp only [perform, Config.release, writing] at h
    (repeat' split at h) <;> cases h
  | dispose =>
    simp only [perform, Config.dispose] at h
    split at h <;> cases h
  | shelve => cases h
  | shelved => cases h
  | unshelve => cases h

theorem given_emit {event : Event} {lock : Lock} : (c.emit event n lock).world.given = c.world.given := by
  unfold emit World.emit
  split <;> rfl

/-- Writing a cell without the id leaves the id absent, whatever else was written before. -/
theorem slot?_of_put_remove {w : World α} {cell cell' : Cell α} {id : SlotId} (hn : c.world.cells[n]? = some cell)
    (hw : w.cells = c.world.cells) (hr : cell'.registry = cell.registry.remove id) :
    ((w.put n cell').registryAt n).slot? id = none := by
  have hlength : n < w.cells.length := hw ▸ (List.getElem?_eq_some_iff.1 hn).1
  have hput : (w.put n cell').cells[n]? = some cell' := List.getElem?_set_self hlength
  rw [World.registryAt_of_getElem? hput, hr, Registry.slot?_remove, if_pos rfl]

/-- **A pop that answers with a value has taken that value out**, and gives it back. -/
theorem gives_of_popped (control : c.control = .running (.call call next))
    (reply : c.step.control = .replying (.popped k a) next') :
    ∃ s n id, c.GivesBack c.step s n id ∧ k = s.serial ∧ a = s.value.payload := by
  have hperform := step_of_call control
  rw [hperform] at reply
  obtain ⟨hd, id, rfl⟩ := eq_pop_of_popped reply
  obtain hy | ⟨n, cell, here, found, reply⟩ := replies_withCell reply
  · cases hy
  have hstep : c.step = c.pop n cell id next := by
    rw [hperform, perform, withCell, World.cellOf?, here, Option.bind_some, found]
    rfl
  by_cases hin : c.thread ∈ cell.detector.inside
  · rw [pop, writing_of_inside hin] at reply
    cases reply
  by_cases hl : cell.lock = .free
  · cases hs : cell.registry.slot? id with
    | none =>
      rw [pop_of_error hin hl (Registry.take_of_absent hs)] at reply
      cases reply
    | some slot =>
      cases slot with
      | reserved =>
        rw [pop_of_error hin hl (Registry.take_of_reserved hs)] at reply
        cases reply
      | occupied s =>
        rw [pop_of_ok hin hl (Registry.take_of_occupied hs)] at hstep reply
        cases reply
        have hbound : c.world.valueAt n id = some s :=
          World.valueAt_eq_some.2 (by rw [World.registryAt_of_getElem? found]; exact hs)
        have hgone : (c.step.world.registryAt n).slot? id = none := by
          rw [hstep]
          exact slot?_of_put_remove found cells_emit rfl
        have hgiven : c.step.world.given = s :: c.world.given := by
          rw [hstep]
          exact congrArg (s :: ·) given_emit
        have hreply : c.step.control = .replying (.popped s.serial s.value.payload) next := by
          rw [hstep]
          rfl
        have hstack : c.step.stack = c.stack := by
          rw [hstep]
          rfl
        exact ⟨s, n, id, ⟨⟨hd, next, control, here, hreply⟩, hbound, hgone, hgiven, hstack⟩, rfl, rfl⟩
  · rw [pop, writing_of_held hin hl] at reply
    cases reply

/-! ### What a step does -/

/-- What a step does to the values: it moves one at most. -/
inductive Shifts (c d : Config α) : Prop
  | rests (values : ∀ m x, d.world.valueAt m x = c.world.valueAt m x) (custody : d.world.custody = c.world.custody)
      (offers : ∀ s n id next, ¬ c.HandsOver s n id next)
  | stored {s : Stored α} {n : CellId} {id : SlotId} {next : Outcome α → Program α} (offer : c.HandsOver s n id next)
      (stores : c.Stores d s n id next)
      (values : ∀ m x, d.world.valueAt m x = if n = m ∧ id = x then some s else c.world.valueAt m x)
      (custody : d.world.custody = (c.world.custody.handOver n id).put s.serial (.bound n id))
  | refused {s : Stored α} {n : CellId} {id : SlotId} {next : Outcome α → Program α} (refuses : c.Refuses d s n id next)
      (values : ∀ m x, d.world.valueAt m x = c.world.valueAt m x)
      (custody : d.world.custody = (c.world.custody.handOver n id).put s.serial .destroyed)
  | returned {s : Stored α} {n : CellId} {id : SlotId} (gives : c.GivesBack d s n id)
      (values : ∀ m x, d.world.valueAt m x = if n = m ∧ id = x then none else c.world.valueAt m x)
      (custody : d.world.custody = (c.world.custody.clear n id).put s.serial .returned)
  | removed {s : Stored α} {n : CellId} {id : SlotId} (bound : c.world.valueAt n id = some s)
      (destroys : c.Destroys d s n id) (offers : ∀ s n id next, ¬ c.HandsOver s n id next)
      (values : ∀ m x, d.world.valueAt m x = if n = m ∧ id = x then none else c.world.valueAt m x)
      (custody : d.world.custody = (c.world.custody.clear n id).put s.serial .destroyed)

theorem Rests.custody (h : c.Rests d) : d.world.custody = c.world.custody := by
  obtain ⟨news, hj, plain⟩ := h.journal
  exact World.custody_eq (fun m x => by rw [World.valueAt, h.registry]; rfl) hj
    (fun e he => Entry.isSilent_of_isPlain (plain e he)) h.handed

theorem get?_remove_of_none {r : Registry (Stored α)} (h : ∀ v, r.slot? id ≠ some (.occupied v)) (x : SlotId) :
    (r.remove id).get? x = r.get? x := by
  rw [Registry.get?_remove]
  split
  · rename_i hx
    rw [← hx, Registry.get?_eq_none.2 h]
  · rfl

/-- The id that a reservation hands out had no value and has none. -/
theorem get?_of_reserve {r r' : Registry (Stored α)} (h : r.reserve = .ok (id, r')) (x : SlotId) :
    r'.get? x = r.get? x := by
  obtain ⟨absent, rfl⟩ := Registry.reserve_eq_ok h
  change (Registry.withSlot _ _ _).get? x = _
  rw [Registry.get?_withSlot]
  split
  · rename_i hx
    rw [← hx, Registry.get?, absent]
    rfl
  · rfl

theorem slot?_gone {r : Registry (Stored α)} {w : World α} {news : List (Entry α)}
    (h : w.Writes d.world n (r.remove id) news) : (d.world.registryAt n).slot? id = none := by
  rw [h.registry, if_pos rfl, Registry.slot?_remove, if_pos rfl]

theorem handed_emit {event : Event} {lock : Lock} : (c.emit event n lock).world.handed = c.world.handed := by
  unfold emit World.emit
  split <;> rfl

theorem handed_store {v : Value α (Program α)} {event : Event} {x : Outcome α}
    {bind : Registry (Stored α) → SlotId → Stored α → Except Refusal (Registry (Stored α))} :
    (c.store n cell id v bind event x next).world.handed = c.world.handed + 1 := by
  by_cases hin : c.thread ∈ cell.detector.inside
  · rw [store_of_inside hin]
    rfl
  by_cases hl : cell.lock = .free
  · cases hb : bind cell.registry id ⟨c.world.handed, v⟩ with
    | ok r =>
      rw [store_of_ok hin hl hb]
      exact handed_emit
    | error why =>
      rw [store_of_error hin hl hb]
      rfl
  · rw [store_of_held hin hl]
    rfl

/-- **A call that hands a value over gives it a number**, whatever becomes of the value. -/
theorem HandsOver.handed {R : List Thread → List Thread → Prop} {out : CellId → List (Thread × Stake)}
    (hc : Ledger.Sound R out c.ledger) (h : c.HandsOver s n id next) :
    c.step.world.handed = c.world.handed + 1 := by
  obtain ⟨-, call, hd, control, offer, here⟩ := h
  obtain ⟨cell, found⟩ := exists_cell_of_find? hc here
  rw [step_of_call control]
  cases call with
  | add =>
    cases offer
    rw [perform, withCell, World.cellOf?, here, Option.bind_some, found]
    exact handed_store
  | set =>
    cases offer
    rw [perform, withCell, World.cellOf?, here, Option.bind_some, found]
    exact handed_store
  | _ => cases offer

/-- **Every step but one that waits shifts the values in one of these ways.** -/
theorem step_shifts {R : List Thread → List Thread → Prop} {out : CellId → List (Thread × Stake)}
    (hc : Ledger.Sound R out c.ledger) (hb : c.step.isBlocked = false) : c.Shifts c.step := by
  cases step_trade hc with
  | rests h =>
    refine .rests (fun m x => by rw [World.valueAt, h.registry]; rfl) h.custody fun s n id next hoffer => ?_
    have hcount := hoffer.handed hc
    rw [h.handed] at hcount
    omega
  | reserved control alive granted writes =>
    exact .rests (writes.valueAt_same (get?_of_reserve granted))
      (writes.custody_eq (get?_of_reserve granted) World.silent_news) fun _ _ _ _ => not_handsOver_of_call control rfl
  | exhausted control alive refused keeps =>
    exact .rests ((keeps 0).valueAt_same fun _ => rfl) ((keeps 0).custody_eq (fun _ => rfl) World.silent_news)
      fun _ _ _ _ => not_handsOver_of_call control rfl
  | @stored call h n id v e x next control offer here alive vacant writes reply ok stack =>
    have hvacant : c.world.valueAt n id = none := by
      refine World.valueAt_eq_none.2 fun u hu => ?_
      rcases vacant with ⟨hs, -⟩ | ⟨hs, -⟩
      · rw [hs] at hu
        cases hu
      · rw [hs] at hu
        cases hu
    have hvalues := writes.valueAt_stored
    have hbound : c.step.world.valueAt n id = some ⟨c.world.handed, v⟩ := (hvalues n id).trans (if_pos ⟨rfl, rfl⟩)
    exact .stored ⟨rfl, call, h, control, offer, here⟩
      ⟨hvacant, hbound, fun hd => alive (writes.dead n hd), ⟨x, reply, ok⟩, stack⟩ hvalues
      (World.custody_store writes World.silent_news)
  | @failed call h n id v s next control offer here keeps failing runs stack =>
    exact .refused (s := ⟨c.world.handed, v⟩) ⟨⟨rfl, call, h, control, offer, here⟩, runs, s, failing, stack⟩
      (fun m x => (keeps m).valueAt_same (fun _ => rfl) m x) (World.custody_refuse keeps)
  | stuck control offer keeps blocked =>
    rw [isBlocked, blocked] at hb
    cases hb
  | @popped h n id v next control here alive occupied writes reply stack =>
    obtain ⟨s, m, x, gives, -⟩ := gives_of_popped control reply
    obtain ⟨rfl, rfl, rfl⟩ : s = v ∧ m = n ∧ x = id := by
      obtain ⟨h', next', control', here', -⟩ := gives.made
      rw [control] at control'
      cases control'
      rw [here] at here'
      cases here'
      exact ⟨Option.some.inj (gives.bound.symm.trans (World.valueAt_eq_some.2 occupied)), rfl, rfl⟩
    exact .returned gives writes.valueAt_removed (World.custody_left writes World.silent_news (.inl ⟨rfl, rfl⟩))
  | @released ticket v next control alive occupied writes runs stack =>
    have hbound : c.world.valueAt ticket.cell ticket.id = some v := World.valueAt_eq_some.2 occupied
    have halive : ¬ c.step.world.Dead ticket.cell := fun hd => alive (writes.dead ticket.cell hd)
    exact .removed hbound (.released control halive hbound (slot?_gone writes) runs stack)
      (fun _ _ _ _ => not_handsOver_of_call control rfl) writes.valueAt_removed
      (World.custody_left writes World.silent_news (.inr ⟨rfl, rfl⟩))
  | freed control alive vacant writes =>
    exact .rests (writes.valueAt_same (get?_remove_of_none vacant))
      (writes.custody_eq (get?_remove_of_none vacant) World.silent_news)
      fun _ _ _ _ => not_handsOver_of_call control rfl
  | torn control dead occupied writes runs stack =>
    have hbound := World.valueAt_eq_some.2 occupied
    exact .removed hbound (.torn control dead hbound (slot?_gone writes) runs stack)
      (fun _ _ _ _ => not_handsOver_of_tearing control) writes.valueAt_removed
      (World.custody_left writes World.silent_nil (.inr ⟨rfl, rfl⟩))
  | cleared control dead vacant writes =>
    exact .rests (writes.valueAt_same (get?_remove_of_none vacant))
      (writes.custody_eq (get?_remove_of_none vacant) World.silent_nil) fun _ _ _ _ => not_handsOver_of_tearing control

/-! ### What follows for one value -/

/-- **Every value stays in one place.** -/
theorem Shifts.settled (h : c.Shifts d) (hK : c.world.custody.Settled) : d.world.custody.Settled := by
  cases h with
  | rests values custody => rw [custody]; exact hK
  | @stored s n id next offer stores values custody =>
    rw [custody, offer.number]
    refine Custody.settled_handOver hK fun m x hp => ?_
    cases hp
    exact congrArg (Option.map Stored.serial) stores.vacant
  | refused refuses values custody =>
    rw [custody, refuses.offer.number]
    exact Custody.settled_handOver hK fun m x hp => absurd hp (Place.destroyed_ne_bound m x)
  | returned gives values custody =>
    rw [custody]
    exact Custody.settled_clear hK (World.has_bound gives.bound) Place.returned_ne_bound
  | removed bound destroys offers values custody =>
    rw [custody]
    exact Custody.settled_clear hK (World.has_bound bound) Place.destroyed_ne_bound

/-- **A value that is handed over is stored or destroyed.** -/
theorem Shifts.offered (h : c.Shifts d) (hoffer : c.HandsOver s n id next) :
    c.Stores d s n id next ∨ c.Refuses d s n id next := by
  cases h with
  | rests values custody offers => exact absurd hoffer (offers _ _ _ _)
  | stored offer stores =>
    obtain ⟨rfl, rfl, rfl, rfl⟩ := hoffer.unique offer
    exact .inl stores
  | refused refuses =>
    obtain ⟨rfl, rfl, rfl, rfl⟩ := hoffer.unique refuses.offer
    exact .inr refuses
  | returned gives => exact absurd hoffer gives.not_handsOver
  | removed bound destroys offers => exact absurd hoffer (offers _ _ _ _)

/-- **A value that is bound was bound before, or was handed over for that very id.** -/
theorem Shifts.bound (h : c.Shifts d) (hs : d.world.valueAt n id = some s) : c.world.valueAt n id = some s ∨
    ∃ next, c.HandsOver s n id next ∧ c.Stores d s n id next := by
  cases h with
  | rests values => exact .inl ((values n id).symm.trans hs)
  | stored offer stores values =>
    rw [values] at hs
    split at hs
    · rename_i hhere
      obtain ⟨rfl, rfl⟩ := hhere
      cases hs
      exact .inr ⟨_, offer, stores⟩
    · exact .inl hs
  | refused refuses values => exact .inl ((values n id).symm.trans hs)
  | returned gives values =>
    rw [values] at hs
    split at hs
    · cases hs
    · exact .inl hs
  | removed bound destroys offers values =>
    rw [values] at hs
    split at hs
    · cases hs
    · exact .inl hs

theorem Shifts.handed_le (h : c.Shifts d) : c.world.handed ≤ d.world.handed := by
  change c.world.custody.handed ≤ d.world.custody.handed
  cases h with
  | rests values custody => exact Nat.le_of_eq (congrArg Custody.handed custody).symm
  | stored offer stores values custody => exact custody ▸ Nat.le_succ _
  | refused refuses values custody => exact custody ▸ Nat.le_succ _
  | returned gives values custody => exact Nat.le_of_eq (congrArg Custody.handed custody).symm
  | removed bound destroys offers values custody => exact Nat.le_of_eq (congrArg Custody.handed custody).symm

/-- The number of a value that is handed over is not given again. -/
theorem Shifts.serial_lt (h : c.Shifts d) (hoffer : c.HandsOver s n id next) : s.serial < d.world.handed := by
  change s.serial < d.world.custody.handed
  rw [hoffer.number]
  cases h with
  | rests values custody offers => exact absurd hoffer (offers _ _ _ _)
  | stored offer stores values custody => rw [custody]; exact Nat.lt_succ_self _
  | refused refuses values custody => rw [custody]; exact Nat.lt_succ_self _
  | returned gives => exact absurd hoffer gives.not_handsOver
  | removed bound destroys offers => exact absurd hoffer (offers _ _ _ _)

theorem mem_addresses_handOver {p : Place} {a : Nat × CellId × SlotId} (hoffer : c.HandsOver s n id next) :
    a ∈ ((c.world.custody.handOver n id).put k p).addresses ↔
      a ∈ c.world.custody.addresses ∨ ∃ s n id next, (s.serial, n, id) = a ∧ c.HandsOver s n id next := by
  rw [Custody.addresses_put]
  refine List.mem_cons.trans (or_comm.trans (or_congr_right ⟨?_, ?_⟩))
  · rintro rfl
    exact ⟨s, n, id, next, by rw [hoffer.number]; rfl, hoffer⟩
  · rintro ⟨s', m, x, next', rfl, hoffer'⟩
    obtain ⟨rfl, rfl, rfl, -⟩ := hoffer.unique hoffer'
    rw [hoffer.number]
    rfl

/-- **The journal tells for which id each value is handed over.** -/
theorem Shifts.mem_addresses {a : Nat × CellId × SlotId} (h : c.Shifts d) : a ∈ d.world.custody.addresses ↔
    a ∈ c.world.custody.addresses ∨ ∃ s n id next, (s.serial, n, id) = a ∧ c.HandsOver s n id next := by
  cases h with
  | rests values custody offers =>
    rw [custody, or_iff_left]
    rintro ⟨s, n, id, next, -, offer⟩
    exact offers _ _ _ _ offer
  | stored offer stores values custody =>
    rw [custody]
    exact mem_addresses_handOver offer
  | refused refuses values custody =>
    rw [custody]
    exact mem_addresses_handOver refuses.offer
  | returned gives values custody =>
    rw [custody, or_iff_left]
    · rfl
    · rintro ⟨s, n, id, next, -, offer⟩
      exact gives.not_handsOver offer
  | removed bound destroys offers values custody =>
    rw [custody, or_iff_left]
    · rfl
    · rintro ⟨s, n, id, next, -, offer⟩
      exact offers _ _ _ _ offer

/-- **The journal tells of the values that pops give back, and of no others.** -/
theorem Shifts.mem_returned (h : c.Shifts d) : k ∈ d.world.custody.returned ↔
    k ∈ c.world.custody.returned ∨ ∃ s n id, s.serial = k ∧ c.GivesBack d s n id := by
  cases h with
  | rests values custody =>
    rw [custody, or_iff_left]
    rintro ⟨s, n, id, -, gives⟩
    have hgone := World.valueAt_of_gone gives.gone
    rw [values, gives.bound] at hgone
    cases hgone
  | stored offer stores values custody =>
    rw [custody, or_iff_left]
    · rfl
    · rintro ⟨s, n, id, -, gives⟩
      exact gives.not_handsOver offer
  | refused refuses values custody =>
    rw [custody, or_iff_left]
    · rfl
    · rintro ⟨s, n, id, -, gives⟩
      exact gives.not_handsOver refuses.offer
  | returned gives values custody =>
    rw [custody]
    refine List.mem_cons.trans (or_comm.trans (or_congr_right ⟨?_, ?_⟩))
    · rintro rfl
      exact ⟨_, _, _, rfl, gives⟩
    · rintro ⟨s, n, id, rfl, gives'⟩
      rw [(gives.unique gives').1]
  | removed bound destroys offers values custody =>
    rw [custody, or_iff_left]
    · rfl
    · rintro ⟨s, n, id, -, gives⟩
      exact gives.not_destroys destroys

/-- **The journal tells of the values that are destroyed, and of no others.** -/
theorem Shifts.mem_destroyed (h : c.Shifts d) : k ∈ d.world.custody.destroyed ↔
    k ∈ c.world.custody.destroyed ∨ ∃ s n id, s.serial = k ∧ c.Destroys d s n id := by
  cases h with
  | rests values custody offers =>
    rw [custody, or_iff_left]
    rintro ⟨s, n, id, -, destroys⟩
    cases destroys with
    | refused refuses => exact offers _ _ _ _ refuses.offer
    | released control alive bound gone =>
      have hgone := World.valueAt_of_gone gone
      rw [values, bound] at hgone
      cases hgone
    | torn control dead bound gone =>
      have hgone := World.valueAt_of_gone gone
      rw [values, bound] at hgone
      cases hgone
  | stored offer stores values custody =>
    rw [custody, or_iff_left]
    · rfl
    rintro ⟨s, n, id, -, destroys⟩
    cases destroys with
    | refused refuses =>
      obtain ⟨scope, -, hstack⟩ := refuses.stack
      exact List.cons_ne_self _ _ (hstack.symm.trans stores.stack)
    | released control => exact not_handsOver_of_call control rfl offer
    | torn control => exact not_handsOver_of_tearing control offer
  | refused refuses values custody =>
    rw [custody]
    refine List.mem_cons.trans (or_comm.trans (or_congr_right ⟨?_, ?_⟩))
    · rintro rfl
      exact ⟨_, _, _, rfl, .refused refuses⟩
    · rintro ⟨s, n, id, rfl, destroys⟩
      rw [((Destroys.refused refuses).unique destroys).1]
  | returned gives values custody =>
    rw [custody, or_iff_left]
    · rfl
    · rintro ⟨s, n, id, -, destroys⟩
      exact gives.not_destroys destroys
  | removed bound destroys offers values custody =>
    rw [custody]
    refine List.mem_cons.trans (or_comm.trans (or_congr_right ⟨?_, ?_⟩))
    · rintro rfl
      exact ⟨_, _, _, rfl, destroys⟩
    · rintro ⟨s, n, id, rfl, destroys'⟩
      rw [(destroys.unique destroys').1]

end Config

/-! ### What is still to be cleared -/

/-- The strand is clearing the cell `n`, and has not come to the id yet. -/
def Strand.Clears (s : Strand α) (n : CellId) (id : SlotId) : Prop :=
  (∃ ahead x next, s.control = .tearing n ahead x next ∧ id ∈ ahead) ∨
  ∃ ahead x next, .call (.tearing n ahead x) next ∈ s.stack ∧ id ∈ ahead

/-- The code that destroys a value raises a message while the cell `n` is cleared. -/
def Strand.Spoils (s : Strand α) (n : CellId) : Prop :=
  ∃ ahead x next rest message report,
    s.stack = .call (.tearing n ahead x) next :: rest ∧ s.control = .running (.finish (.raise message) report)

namespace Config

variable {c d : Config α} {n : CellId} {id : SlotId} {k : Nat}

theorem Grows.mem (hg : Grows c d) {f : Frame α} (hf : f ∈ c.stack) : f ∈ d.stack := by
  obtain ⟨-, ⟨hstack, -⟩ | ⟨s, next, hstack⟩⟩ := hg
  · rw [hstack]
    exact hf
  · rw [hstack]
    exact List.mem_cons_of_mem _ hf

/-- A frame stays on the stack until the code that runs on it has ended. -/
theorem step_frames {f : Frame α} (hf : f ∈ c.stack) : f ∈ c.step.stack ∨
    ∃ rest v report, c.stack = f :: rest ∧ c.control = .running (.finish v report) := by
  unfold step
  split
  · exact .inl ((begins_perform _ _).grows.mem hf)
  · exact .inl hf
  · exact .inl (List.mem_cons_of_mem _ hf)
  · rename_i v report hc
    split
    · exact .inl hf
    · rename_i s next rest hstack
      rw [hstack] at hf
      rcases List.mem_cons.1 hf with rfl | hf
      · exact .inr ⟨rest, v, report, hstack, hc⟩
      · exact .inl ((goes_resume (c := { c with stack := rest })).grows.mem hf)
    · rename_i u next rest hstack
      rw [hstack] at hf
      rcases List.mem_cons.1 hf with rfl | hf
      · exact .inr ⟨rest, v, report, hstack, hc⟩
      · exact .inl hf
  · exact .inl hf
  · exact .inl (grows_tearOn.mem hf)
  · exact .inl hf
  · exact .inl hf

/-- Nothing stands under an id that was just cleared. -/
theorem not_bound_of_cleared {cell : Cell α} (hc : c.world.cells[n]? = some cell)
    (cells : d.world.cells = (c.world.put n (cell.withRegistry (cell.registry.remove id))).cells) :
    ¬ d.world.custody.Has k (.bound n id) := by
  intro hk
  obtain ⟨s, hs, -⟩ := World.exists_of_has_bound hk
  have hput := World.writes_put (cell.withRegistry (cell.registry.remove id)) hc fun h => h
  have hvalue : d.world.valueAt n id = (c.world.put n (cell.withRegistry (cell.registry.remove id))).valueAt n id := by
    rw [World.valueAt, World.registryAt, cells]
    rfl
  rw [hvalue, hput.valueAt, if_pos rfl] at hs
  change (cell.registry.remove id).get? id = _ at hs
  rw [Registry.get?_remove, if_pos rfl] at hs
  cases hs

/-- **A strand that clears a cell comes to each of its values**, unless the code that destroys one raises a message. -/
theorem step_clears (h : c.strand.Clears n id) (hk : c.step.world.custody.Has k (.bound n id)) :
    c.step.strand.Clears n id ∨ c.strand.Spoils n := by
  rcases h with ⟨ahead, x, next, hc, hid⟩ | ⟨ahead, x, next, hf, hid⟩
  · have hstep : c.step = c.tearOn n ahead x next := by rw [step, show c.control = _ from hc]
    rw [hstep] at hk ⊢
    cases ahead with
    | nil => cases hid
    | cons i ahead =>
      cases hcell : c.world.cells[n]? with
      | none =>
        rw [tearOn_of_missing hcell] at hk
        obtain ⟨s, hs, -⟩ := World.exists_of_has_bound hk
        have hnone : (c.reply x next).world.cells[n]? = none := hcell
        rw [World.valueAt_of_missing hnone] at hs
        cases hs
      | some cell =>
        cases hs : cell.registry.get? i with
        | none =>
          rw [tearOn_of_none hcell hs] at hk ⊢
          rcases List.mem_cons.1 hid with rfl | hid
          · exact absurd hk (not_bound_of_cleared hcell rfl)
          · exact .inl (.inl ⟨ahead, x, next, rfl, hid⟩)
        | some v =>
          rw [tearOn_of_value hcell hs] at hk ⊢
          rcases List.mem_cons.1 hid with rfl | hid
          · exact absurd hk (not_bound_of_cleared hcell rfl)
          · exact .inl (.inr ⟨ahead, x, next, List.mem_cons_self, hid⟩)
  · -- the code that destroys a value still runs, or it ends and the clearing goes on unless it raised a message
    rcases step_frames hf with hf | ⟨rest, v, report, hstack, hc⟩
    · exact .inl (.inr ⟨ahead, x, next, hf, hid⟩)
    · cases v with
      | raise message => exact .inr ⟨ahead, x, next, rest, message, report, hstack, hc⟩
      | goOn =>
        rw [step_of_finish hc hstack]
        cases x <;> exact .inl (.inl ⟨ahead, _, next, rfl, hid⟩)
      | stop =>
        rw [step_of_finish hc hstack]
        cases x <;> exact .inl (.inl ⟨ahead, _, next, rfl, hid⟩)

theorem Trade.dies (h : c.Trade d) (hd : d.world.Dead n) :
    c.world.Dead n ∨ ∃ x next, d.control = .tearing n (c.world.registryAt n).ids x next := by
  rcases h.rests_or_writes with h | ⟨m, r, news, h⟩
  · exact h.dies n hd
  · exact .inl (h.dead n hd)

/-- A value that is bound after a step is in a cell that has owners, or is still to be cleared by the strand that made
the step, or its cell was dead before and the strand was not clearing it. -/
theorem Shifts.tended (h : c.Shifts c.step) (htrade : c.Trade c.step)
    (hk : c.step.world.custody.Has k (.bound n id)) :
    ¬ c.step.world.Dead n ∨ c.step.strand.Clears n id ∨ c.strand.Spoils n ∨
      c.world.custody.Has k (.bound n id) ∧ c.world.Dead n ∧ ¬ c.strand.Clears n id := by
  by_cases hd : c.step.world.Dead n
  · -- nothing is bound in a cell without owners, so the value was there already
    obtain ⟨s, hs, rfl⟩ := World.exists_of_has_bound hk
    have hbefore : c.world.valueAt n id = some s :=
      (h.bound hs).resolve_right fun ⟨_, _, stores⟩ => stores.alive hd
    rcases htrade.dies hd with hdead | ⟨x, next, hc⟩
    · by_cases hclears : c.strand.Clears n id
      · rcases step_clears hclears hk with h | h
        · exact .inr (.inl h)
        · exact .inr (.inr (.inl h))
      · exact .inr (.inr (.inr ⟨World.has_bound hbefore, hdead, hclears⟩))
    · have hslot := World.valueAt_eq_some.1 hbefore
      exact .inr (.inl (.inl ⟨_, x, next, hc, Registry.mem_ids.2 (by rw [hslot]; rfl)⟩))
  · exact .inl hd

end Config

/-! ### Threads that take turns -/

namespace Pool

/-- In one of the turns the code that destroys a value raised a message while the cell was being cleared. -/
def SpoiltIn (P : Pool α) (turns : List Nat) (n : CellId) : Prop :=
  ∃ before i after s, turns = before ++ i :: after ∧ (P.play before).strands[i]? = some s ∧ s.Spoils n

variable {P : Pool α} {spoilt : CellId → Prop} {i : Nat} {s : Strand α}

theorem SpoiltIn.concat {turns : List Nat} {n : CellId} (h : P.SpoiltIn turns n) : P.SpoiltIn (turns ++ [i]) n := by
  obtain ⟨before, j, after, s, rfl, hs, hn⟩ := h
  exact ⟨before, j, after ++ [i], s, by simp, hs, hn⟩

theorem Kept.trade (hP : P.Kept) (hs : P.strands[i]? = some s) : (s.within P.world).Trade (s.within P.world).step := by
  obtain ⟨pre, post, h, -⟩ := exists_middle hs
  exact Config.step_trade (hP.strand h).sound

theorem Kept.shifts (hP : P.Kept) (hs : P.strands[i]? = some s) (hb : (s.within P.world).step.isBlocked = false) :
    (s.within P.world).Shifts (s.within P.world).step := by
  obtain ⟨pre, post, h, -⟩ := exists_middle hs
  exact Config.step_shifts (hP.strand h).sound hb

/-- Where the values are, kept up by every turn. -/
structure Tends (P : Pool α) (spoilt : CellId → Prop) : Prop where
  settled : P.world.custody.Settled
  tended : ∀ k n id, P.world.custody.Has k (.bound n id) →
    ¬ P.world.Dead n ∨ (∃ s ∈ P.strands, s.Clears n id) ∨ spoilt n

/-- **A turn loses no value.** -/
theorem step_tends (hP : P.Kept) (h : P.Tends spoilt) :
    (P.step i).Tends fun n => spoilt n ∨ ∃ s, P.strands[i]? = some s ∧ s.Spoils n := by
  have hsame : P.Tends fun n => spoilt n ∨ ∃ s, P.strands[i]? = some s ∧ s.Spoils n := by
    refine ⟨h.settled, fun k n id hk => ?_⟩
    rcases h.tended k n id hk with h | h | h
    · exact .inl h
    · exact .inr (.inl h)
    · exact .inr (.inr (.inl h))
  cases hs : P.strands[i]? with
  | none =>
    rw [step, hs]
    rw [hs] at hsame
    exact hsame
  | some s =>
    rw [hs] at hsame
    rw [step_of_getElem? hs]
    split
    · exact hsame
    · rename_i hb
      have hshifts := hP.shifts hs (by simpa using hb)
      refine ⟨hshifts.settled h.settled, fun k n id hk => ?_⟩
      have hset : (s.within P.world).step.strand ∈ P.strands.set i (s.within P.world).step.strand :=
        List.mem_set (List.getElem?_eq_some_iff.1 hs).1 _
      rcases hshifts.tended (hP.trade hs) hk with hd | hclears | hspoils | ⟨hbefore, hdead, hnot⟩
      · exact .inl hd
      · exact .inr (.inl ⟨_, hset, hclears⟩)
      · exact .inr (.inr (.inr ⟨s, rfl, hspoils⟩))
      · rcases h.tended k n id hbefore with halive | ⟨other, hother, hclears⟩ | hspoilt
        · exact absurd hdead halive
        · -- the strand that clears the cell is another one, and stands where it stood
          obtain ⟨j, hj⟩ := List.getElem?_of_mem hother
          have hij : i ≠ j := by
            rintro rfl
            rw [hs] at hj
            cases hj
            exact hnot hclears
          refine .inr (.inl ⟨other, List.mem_of_getElem? (i := j) ?_, hclears⟩)
          rw [List.getElem?_set_ne hij]
          exact hj
        · exact .inr (.inr (.inl hspoilt))

theorem start_tends (v : Verbosity) (programs : List (Program α)) : (start v programs).Tends fun _ => False := by
  have hnone : ∀ k p, ¬ (start v programs).world.custody.Has k p := by
    intro k p hk
    cases p with
    | bound n id =>
      obtain ⟨s, hs, -⟩ := World.exists_of_has_bound hk
      rw [World.valueAt_of_missing rfl] at hs
      cases hs
    | returned => cases hk
    | destroyed => cases hk
  refine ⟨⟨fun k => ?_, fun k p q hp => absurd hp (hnone k p), .nil, .nil⟩, fun k n id hk => absurd hk (hnone _ _)⟩
  exact iff_of_false (fun ⟨p, hp⟩ => hnone k p hp) (Nat.not_lt_zero k)

theorem play_tends (v : Verbosity) (programs : List (Program α)) (turns : List Nat) :
    ((start v programs).play turns).Tends ((start v programs).SpoiltIn turns) := by
  induction turns using List.reverseRecOn with
  | nil =>
    refine ⟨(start_tends v programs).settled, fun k n id hk => ?_⟩
    rcases (start_tends v programs).tended k n id hk with h | h | h
    · exact .inl h
    · exact .inr (.inl h)
    · exact h.elim
  | append_singleton turns i ih =>
    rw [play_concat]
    have h := step_tends (i := i) ((reaches_play turns).kept (start_kept v programs)) ih
    refine ⟨h.settled, fun k n id hk => ?_⟩
    rcases h.tended k n id hk with hd | hclears | hspoilt | ⟨s, hs, hspoils⟩
    · exact .inl hd
    · exact .inr (.inl hclears)
    · exact .inr (.inr hspoilt.concat)
    · exact .inr (.inr ⟨turns, i, [], s, rfl, hs, hspoils⟩)

end Pool

end SlotRegistry
