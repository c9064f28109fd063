import SlotRegistry.Proofs.Machine.Enclosing
import SlotRegistry.Proofs.Machine.Returned
/-!
# Provenance — where every value came from, and where it went

A value that is anywhere was handed over in one of the turns that were taken, for the very id that it is bound to; and
a value that was handed over is still bound there, or was given back in one of the turns, or destroyed in one of them
(`values_conserved`).  What was given back stays with the caller until the caller destroys it.  No two calls hand over
under one number, so the number tells which value it is.
-/
namespace SlotRegistry

variable {α : Type}

/-- The code of the scope destroys a value. -/
def Scope.IsEnd : Scope α → Prop
  | rejecting _ _ | bouncing _ | discarding _ | tearing _ _ _ | disposing => True
  | walking _ _ _ _ _ _ | copying _ _ => False

namespace Config

variable {c : Config α} {n : CellId} {id : SlotId} {k : Nat} {s s' : Stored α} {scope : Scope α} {ticket : Ticket}
  {next : Outcome α → Program α} {rest : List (Frame α)}

/-! ### The code that destroys a value -/

theorem not_isEnd_of_isVisit {visit : Array (Visit α) → SlotId → Option α → Program α} (h : scope.IsVisit n visit) :
    ¬ scope.IsEnd := by
  obtain ⟨_, _, _, _, rfl⟩ := h
  exact id

/-- A release that comes to user code destroys the value that it has removed. -/
theorem destroys_of_release (control : c.control = .running (.call (.release ticket) next))
    (stack : c.step.stack ≠ c.stack) : ∃ s, c.Destroys c.step s ticket.cell ticket.id := by
  have hstep : c.step = c.release ticket next := step_of_call control
  rw [hstep] at stack ⊢
  rcases release_cases c ticket next with hsame | ⟨cell, s, found, -, occupied, hcells, hstack, hruns⟩
  · exact absurd hsame stack
  have hput : (c.release ticket next).world.cells[ticket.cell]? =
      some (cell.withRegistry (cell.registry.remove ticket.id)).addOwner := by
    rw [hcells]
    exact List.getElem?_set_self (List.getElem?_eq_some_iff.1 found).1
  have hbound : c.world.valueAt ticket.cell ticket.id = some s :=
    World.valueAt_eq_some.2 (by rw [World.registryAt_of_getElem? found]; exact occupied)
  have hgone : ((c.release ticket next).world.registryAt ticket.cell).slot? ticket.id = none := by
    rw [World.registryAt_of_getElem? hput]
    exact Registry.slot?_remove.trans (if_pos rfl)
  exact ⟨s, .released control (World.not_dead_of_getElem? hput (Nat.succ_ne_zero _)) hbound hgone hruns hstack⟩

/-- The clearing of a cell that comes to user code destroys the value that it has removed. -/
theorem destroys_of_tearing {ahead : List SlotId} {x : Outcome α} (control : c.control = .tearing n ahead x next)
    (dead : c.world.Dead n) (stack : c.step.stack ≠ c.stack) : ∃ s id, c.Destroys c.step s n id := by
  have hstep : c.step = c.tearOn n ahead x next := by rw [step, control]
  obtain ⟨cell, found, ho⟩ := dead
  cases ahead with
  | nil => exact absurd (congrArg Config.stack hstep) stack
  | cons id ahead =>
    cases hs : cell.registry.get? id with
    | none =>
      rw [tearOn_of_none found hs] at hstep
      exact absurd (congrArg Config.stack hstep) stack
    | some s =>
      rw [tearOn_of_value found hs] at hstep
      rw [hstep]
      have hbound : c.world.valueAt n id = some s := by
        rw [World.valueAt, World.registryAt_of_getElem? found]
        exact hs
      have hgone : ((c.world.put n (cell.withRegistry (cell.registry.remove id))).registryAt n).slot? id = none :=
        slot?_of_put_remove found rfl rfl
      exact ⟨s, id, .torn control ⟨cell, found, ho⟩ hbound hgone rfl rfl⟩

/-- A call that hands a value over, and comes to user code, destroys the value. -/
theorem destroys_of_offer (hshifts : c.Shifts c.step) (hoffer : c.HandsOver s n id next)
    (stack : c.step.stack ≠ c.stack) : c.Destroys c.step s n id := by
  rcases hshifts.offered hoffer with stores | refuses
  · exact absurd stores.stack stack
  · exact .refused refuses

/-- **Code that destroys a value runs for a value whose end has come**, or that a caller gives up, and for no other. -/
theorem frame_isEnd {R : List Thread → List Thread → Prop} {out : CellId → List (Thread × Stake)}
    (hc : Ledger.Sound R out c.ledger) (hb : c.step.isBlocked = false) (hf : .call scope next :: rest <:+ c.step.stack)
    (hend : scope.IsEnd) :
    .call scope next :: rest <:+ c.base ∨ (∃ s n id, c.Destroys c.step s n id) ∨ ∃ s, c.Disposes c.step s := by
  rcases frame_cases hf with
    hbase | ⟨call, p, control, rfl, hopens, -⟩ | ⟨m, visit, s', hvisit, -⟩ | ⟨m, ahead, ahead', x, control, rfl, -⟩
  · exact .inl hbase
  · refine .inr ?_
    have hne : c.step.stack ≠ c.stack := ne_of_suffix hf
    cases hopens with
    | walks here hvisit => exact absurd hend (not_isEnd_of_isVisit hvisit)
    | copies => exact hend.elim
    | @refuses _ h n id v why offer here =>
      exact .inl ⟨⟨c.world.handed, v⟩, n, id,
        destroys_of_offer (step_shifts hc hb) ⟨rfl, call, h, control, offer, here⟩ hne⟩
    | @bounces _ h n id v offer here =>
      exact .inl ⟨⟨c.world.handed, v⟩, n, id,
        destroys_of_offer (step_shifts hc hb) ⟨rfl, call, h, control, offer, here⟩ hne⟩
    | discards =>
      obtain ⟨s, hdestroys⟩ := destroys_of_release control hne
      exact .inl ⟨s, _, _, hdestroys⟩
    | disposes => exact .inr (disposes_of_dispose control hne)
  · exact absurd hend (not_isEnd_of_isVisit hvisit)
  · have hdead : c.world.Dead m := hc.torn m (by rw [show c.ledger.torn = c.control.torn from rfl, control]; rfl)
    obtain ⟨s, id, hdestroys⟩ := destroys_of_tearing control hdead (ne_of_suffix hf)
    exact .inr (.inl ⟨s, m, id, hdestroys⟩)

/-! ### A value parts from its registry once -/

/-- The value is given back or destroyed. -/
def Parts (c : Config α) (s : Stored α) : Prop :=
  (∃ n id, c.GivesBack c.step s n id) ∨ ∃ n id, c.Destroys c.step s n id

/-- A value that parts has not been given back or destroyed before. -/
theorem Parts.unparted (h : c.Parts s) (hK : c.world.custody.Settled) :
    ¬ c.world.custody.Has s.serial .returned ∧ ¬ c.world.custody.Has s.serial .destroyed := by
  have hbound : ∀ n id, c.world.valueAt n id = some s →
      ¬ c.world.custody.Has s.serial .returned ∧ ¬ c.world.custody.Has s.serial .destroyed := by
    intro n id hs
    have hhere := World.has_bound hs
    exact ⟨fun h => Place.returned_ne_bound n id (hK.one _ _ _ h hhere),
      fun h => Place.destroyed_ne_bound n id (hK.one _ _ _ h hhere)⟩
  rcases h with ⟨n, id, gives⟩ | ⟨n, id, destroys⟩
  · exact hbound n id gives.bound
  · cases destroys with
    | refused refuses =>
      rw [refuses.offer.number]
      exact ⟨hK.not_has_handed (p := .returned), hK.not_has_handed (p := .destroyed)⟩
    | released control alive bound => exact hbound n id bound
    | torn control dead bound => exact hbound n id bound

end Config

/-! ### What happened to a value while threads took turns -/

namespace Pool

open Config (HandsOver GivesBack Destroys Disposes Parts)

/-- In one of the turns a call handed the value over, for the id of the cell. -/
def HandedOver (P : Pool α) (turns : List Nat) (s : Stored α) (n : CellId) (id : SlotId) : Prop :=
  P.Happens turns fun c => ∃ next, c.HandsOver s n id next

/-- Where a value is after the turns: it is bound to an id of a cell, or was given back or destroyed in one of them. -/
def IsAt (P : Pool α) (turns : List Nat) (s : Stored α) : Place → Prop
  | .bound n id => (P.play turns).world.valueAt n id = some s
  | .returned => P.Happens turns fun c => ∃ n id, c.GivesBack c.step s n id
  | .destroyed => P.Happens turns fun c => ∃ n id, c.Destroys c.step s n id

/-- **Values are conserved**: what has become of the values that were handed over in the turns. -/
structure Conserved (P : Pool α) (turns : List Nat) : Prop where
  /-- No two calls hand over under one number. -/
  numbered : ∀ k, P.Once turns fun c => ∃ s n id next, c.HandsOver s n id next ∧ s.serial = k
  /-- A call that hands a value over stores that value, or destroys it and fails. -/
  offered : ∀ j c s n id next, P.Takes turns j c → c.HandsOver s n id next →
    c.Stores c.step s n id next ∨ c.Refuses c.step s n id next
  /-- A value that was handed over is in one place. -/
  placed : ∀ s n id, P.HandedOver turns s n id → ∃! p, P.IsAt turns s p
  /-- A value that is anywhere was handed over. -/
  origin : ∀ s p, P.IsAt turns s p → ∃ n id, P.HandedOver turns s n id
  /-- A value is bound to no id but the one it was handed over for. -/
  home : ∀ s n id m x, P.HandedOver turns s n id → P.IsAt turns s (.bound m x) → m = n ∧ x = id
  /-- A value that is bound is in a cell that has owners, or is about to be destroyed as the cell is cleared, unless the
  clearing was broken off by a message. -/
  tended : ∀ s n id, P.IsAt turns s (.bound n id) → ¬ (P.play turns).world.Dead n ∨
    (∃ strand ∈ (P.play turns).strands, strand.Clears n id) ∨ P.SpoiltIn turns n
  /-- A value is given back or destroyed in one turn at most. -/
  once : ∀ s, P.Once turns fun c => c.Parts s
  /-- A call that answers with a value has taken that value out. -/
  answers : ∀ j c call next k a next', P.Takes turns j c → c.control = .running (.call call next) →
    c.step.control = .replying (.popped k a) next' →
    ∃ s n id, c.GivesBack c.step s n id ∧ k = s.serial ∧ a = s.value.payload
  /-- What callers have was given back to them, -/
  had : ∀ s ∈ (P.play turns).world.given, P.IsAt turns s .returned
  /-- and what was given back they have until they destroy it, -/
  kept : ∀ s, P.IsAt turns s .returned →
    (s ∉ (P.play turns).world.given ↔ P.Happens turns fun c => c.Disposes c.step s)
  /-- which they do once at most. -/
  disposed : ∀ s, P.Once turns fun c => c.Disposes c.step s
  /-- Code that destroys a value comes to run for a value whose end it is. -/
  ends : ∀ j c scope next rest, P.Takes turns j c → scope.IsEnd → .call scope next :: rest <:+ c.step.stack →
    .call scope next :: rest <:+ c.base ∨ (∃ s n id, c.Destroys c.step s n id) ∨ ∃ s, c.Disposes c.step s
  /-- The journal tells of every value what happened to it, -/
  told : ∀ s n id, P.HandedOver turns s n id → (s.serial, n, id) ∈ (P.play turns).world.custody.addresses ∧
    ∀ p, P.IsAt turns s p ↔ (P.play turns).world.custody.Has s.serial p
  /-- and tells of no end twice. -/
  told_once : (P.play turns).world.custody.returned.Nodup ∧ (P.play turns).world.custody.destroyed.Nodup

variable {v : Verbosity} {programs : List (Program α)} {turns : List Nat} {j k : Nat} {c : Config α}
  {s s' : Stored α} {n m : CellId} {id x : SlotId} {p : Place} {next : Outcome α → Program α}
  {scope : Scope α} {rest : List (Frame α)}

namespace Takes

theorem shifts (h : (start v programs).Takes turns j c) : c.Shifts c.step := by
  obtain ⟨i, strand, -, hs, rfl, hb⟩ := h
  exact ((reaches_play _).kept (start_kept v programs)).shifts hs hb

theorem settled (h : (start v programs).Takes turns j c) : c.world.custody.Settled := by
  rw [← h.world]
  exact (play_tends v programs _).settled

theorem ends (h : (start v programs).Takes turns j c) (hend : scope.IsEnd)
    (hf : .call scope next :: rest <:+ c.step.stack) :
    .call scope next :: rest <:+ c.base ∨ (∃ s n id, c.Destroys c.step s n id) ∨ ∃ s, c.Disposes c.step s := by
  obtain ⟨i, strand, -, hs, rfl, hb⟩ := h
  obtain ⟨pre, post, hstrands, -⟩ := exists_middle hs
  exact Config.frame_isEnd (((reaches_play _).kept (start_kept v programs)).strand hstrands).sound hb hf hend

end Takes

/-! ### What the journal tells of the turns -/

theorem mem_addresses {a : Nat × CellId × SlotId} :
    a ∈ ((start v programs).play turns).world.custody.addresses ↔
      (start v programs).Happens turns fun c => ∃ s n id next, (s.serial, n, id) = a ∧ c.HandsOver s n id next :=
  iff_happens (F := fun w => a ∈ w.custody.addresses) List.not_mem_nil fun _ _ _ ht => ht.shifts.mem_addresses

theorem mem_returned : k ∈ ((start v programs).play turns).world.custody.returned ↔
    (start v programs).Happens turns fun c => ∃ s n id, s.serial = k ∧ c.GivesBack c.step s n id :=
  iff_happens (F := fun w => k ∈ w.custody.returned) List.not_mem_nil fun _ _ _ ht => ht.shifts.mem_returned

theorem mem_destroyed : k ∈ ((start v programs).play turns).world.custody.destroyed ↔
    (start v programs).Happens turns fun c => ∃ s n id, s.serial = k ∧ c.Destroys c.step s n id :=
  iff_happens (F := fun w => k ∈ w.custody.destroyed) List.not_mem_nil fun _ _ _ ht => ht.shifts.mem_destroyed

/-! ### Values are handed over once, and part once -/

/-- The number of a value that was handed over stays below the count. -/
theorem serial_lt_lasts (k : Nat) : ∀ turns j c, (start v programs).Takes turns j c →
    (k < c.world.handed ∨ ∃ s n id next, c.HandsOver s n id next ∧ s.serial = k) → k < c.step.world.handed := by
  rintro turns j c ht (h | ⟨s, n, id, next, hoffer, rfl⟩)
  · exact Nat.lt_of_lt_of_le h ht.shifts.handed_le
  · exact ht.shifts.serial_lt hoffer

theorem serial_lt (h : (start v programs).HandedOver turns s n id) :
    s.serial < ((start v programs).play turns).world.handed := by
  obtain ⟨j, c, ht, next, hoffer⟩ := h
  exact of_happens (F := fun w => s.serial < w.handed) (serial_lt_lasts s.serial)
    ⟨j, c, ht, s, n, id, next, hoffer, rfl⟩

/-- **No two calls hand over under one number.** -/
theorem once_handsOver (k : Nat) :
    (start v programs).Once turns fun c => ∃ s n id next, c.HandsOver s n id next ∧ s.serial = k := by
  refine once_of_lasts (F := fun w => k < w.handed) (serial_lt_lasts k) ?_
  rintro turns j c ht ⟨s, n, id, next, hoffer, rfl⟩
  rw [hoffer.number]
  exact Nat.lt_irrefl _

/-- **A value parts in one turn at most.** -/
theorem once_parts (s : Stored α) : (start v programs).Once turns fun c => c.Parts s := by
  refine once_of_lasts (F := fun w => s.serial ∈ w.custody.returned ∨ s.serial ∈ w.custody.destroyed) ?_ ?_
  · rintro turns j c ht ((h | h) | (⟨n, id, gives⟩ | ⟨n, id, destroys⟩))
    · exact .inl (ht.shifts.mem_returned.2 (.inl h))
    · exact .inr (ht.shifts.mem_destroyed.2 (.inl h))
    · exact .inl (ht.shifts.mem_returned.2 (.inr ⟨s, n, id, rfl, gives⟩))
    · exact .inr (ht.shifts.mem_destroyed.2 (.inr ⟨s, n, id, rfl, destroys⟩))
  · intro turns j c ht hparts
    exact not_or.2 (hparts.unparted ht.settled)

/-! ### Where a value was handed over -/

theorem handedOver_of_valueAt (h : ((start v programs).play turns).world.valueAt n id = some s) :
    (start v programs).HandedOver turns s n id := by
  have hnone : ¬ (start v programs).world.valueAt n id = some s := by
    rw [World.valueAt_of_missing rfl]
    exact Option.some_ne_none _ ∘ Eq.symm
  exact happens_of_turn (F := fun w => w.valueAt n id = some s) hnone
    (fun _ _ _ ht h => (ht.shifts.bound h).imp_right fun ⟨next, hoffer, _⟩ => ⟨next, hoffer⟩) h

namespace Takes

theorem handedOver_of_valueAt (h : (start v programs).Takes turns j c) (bound : c.world.valueAt n id = some s) :
    (start v programs).HandedOver turns s n id :=
  Happens.of_take (k := j) (Pool.handedOver_of_valueAt (by rw [h.world]; exact bound))

theorem handedOver_of_gives (h : (start v programs).Takes turns j c) (gives : c.GivesBack c.step s n id) :
    (start v programs).HandedOver turns s n id :=
  h.handedOver_of_valueAt gives.bound

theorem handedOver_of_destroys (h : (start v programs).Takes turns j c) (destroys : c.Destroys c.step s n id) :
    (start v programs).HandedOver turns s n id := by
  cases destroys with
  | refused refuses => exact ⟨j, c, h, _, refuses.offer⟩
  | released control alive bound => exact h.handedOver_of_valueAt bound
  | torn control dead bound => exact h.handedOver_of_valueAt bound

end Takes

/-- **The number tells which value it is**, and for which id it was handed over. -/
theorem HandedOver.unique (h : (start v programs).HandedOver turns s n id)
    (h' : (start v programs).HandedOver turns s' m x) (hs : s.serial = s'.serial) : s = s' ∧ n = m ∧ id = x := by
  obtain ⟨j, c, ht, next, hoffer⟩ := h
  obtain ⟨j', c', ht', next', hoffer'⟩ := h'
  obtain rfl := once_handsOver s.serial j j' c c' ht ⟨s, n, id, next, hoffer, rfl⟩ ht'
    ⟨s', m, x, next', hoffer', hs.symm⟩
  cases ht.unique ht'
  obtain ⟨hs, hn, hid, -⟩ := hoffer.unique hoffer'
  exact ⟨hs, hn, hid⟩

theorem IsAt.handedOver (h : (start v programs).IsAt turns s p) :
    ∃ n id, (start v programs).HandedOver turns s n id := by
  cases p with
  | bound n id => exact ⟨n, id, handedOver_of_valueAt h⟩
  | returned =>
    obtain ⟨j, c, ht, n, id, gives⟩ := h
    exact ⟨n, id, ht.handedOver_of_gives gives⟩
  | destroyed =>
    obtain ⟨j, c, ht, n, id, destroys⟩ := h
    exact ⟨n, id, ht.handedOver_of_destroys destroys⟩

/-- **The journal tells where a value is** that was handed over. -/
theorem HandedOver.isAt_iff (h : (start v programs).HandedOver turns s n id) :
    (start v programs).IsAt turns s p ↔ ((start v programs).play turns).world.custody.Has s.serial p := by
  cases p with
  | bound m x =>
    refine ⟨World.has_bound, fun hhas => ?_⟩
    obtain ⟨s', hs', hserial⟩ := World.exists_of_has_bound hhas
    rw [(h.unique (handedOver_of_valueAt hs') hserial.symm).1]
    exact hs'
  | returned =>
    refine Iff.trans ⟨?_, ?_⟩ mem_returned.symm
    · rintro ⟨j, c, ht, m, x, gives⟩
      exact ⟨j, c, ht, s, m, x, rfl, gives⟩
    · rintro ⟨j, c, ht, s', m, x, hserial, gives⟩
      rw [(h.unique (ht.handedOver_of_gives gives) hserial.symm).1]
      exact ⟨j, c, ht, m, x, gives⟩
  | destroyed =>
    refine Iff.trans ⟨?_, ?_⟩ mem_destroyed.symm
    · rintro ⟨j, c, ht, m, x, destroys⟩
      exact ⟨j, c, ht, s, m, x, rfl, destroys⟩
    · rintro ⟨j, c, ht, s', m, x, hserial, destroys⟩
      rw [(h.unique (ht.handedOver_of_destroys destroys) hserial.symm).1]
      exact ⟨j, c, ht, m, x, destroys⟩

/-! ### What callers have -/

theorem happens_of_given (h : s ∈ ((start v programs).play turns).world.given) :
    (start v programs).Happens turns fun c => ∃ n id, c.GivesBack c.step s n id :=
  happens_of_turn (F := fun w => s ∈ w.given) List.not_mem_nil (fun _ _ _ _ => Config.mem_given_step) h

namespace Takes

theorem mem_returned_of_given (h : (start v programs).Takes turns j c) (hs : s ∈ c.world.given) :
    s.serial ∈ c.world.custody.returned := by
  rw [← h.world] at hs ⊢
  obtain ⟨i, e, he, n, id, gives⟩ := happens_of_given hs
  exact mem_returned.2 ⟨i, e, he, s, n, id, rfl, gives⟩

theorem not_mem_returned_of_gives (h : (start v programs).Takes turns j c) (gives : c.GivesBack c.step s n id) :
    s.serial ∉ c.world.custody.returned :=
  (Parts.unparted (.inl ⟨n, id, gives⟩) h.settled).1

end Takes

/-- Callers have no two values of one number. -/
theorem nodup_given : (((start v programs).play turns).world.given.map Stored.serial).Nodup := by
  refine holds_of_turn (F := fun w => (w.given.map Stored.serial).Nodup) List.nodup_nil ?_
  intro turns j c ht h
  rcases Config.given_step c with hsame | ⟨s, n, id, gives⟩ | ⟨s, disposes⟩
  · rw [hsame]
    exact h
  · rw [gives.given]
    refine List.nodup_cons.2 ⟨fun hs => ?_, h⟩
    obtain ⟨t, ht', hserial⟩ := List.mem_map.1 hs
    exact ht.not_mem_returned_of_gives gives (hserial ▸ ht.mem_returned_of_given ht')
  · rw [disposes.given]
    exact h.sublist (List.eraseP_sublist.map _)

/-- What a caller has destroyed was given back, and is with no caller any more. -/
theorem disposed_lasts (s : Stored α) : ∀ turns j c, (start v programs).Takes turns j c →
    (s.serial ∈ c.world.custody.returned ∧ s ∉ c.world.given) ∨ c.Disposes c.step s →
    s.serial ∈ c.step.world.custody.returned ∧ s ∉ c.step.world.given := by
  rintro turns j c ht (⟨hreturned, hgone⟩ | disposes)
  · refine ⟨ht.shifts.mem_returned.2 (.inl hreturned), fun hs => ?_⟩
    rcases Config.mem_given_step hs with hs | ⟨n, id, gives⟩
    · exact hgone hs
    · exact ht.not_mem_returned_of_gives gives hreturned
  · refine ⟨ht.shifts.mem_returned.2 (.inl (ht.mem_returned_of_given disposes.had)), ?_⟩
    rw [disposes.given]
    exact Stored.not_mem_eraseP (by rw [← ht.world]; exact nodup_given)

/-- **A caller destroys a value once at most.** -/
theorem once_disposes (s : Stored α) : (start v programs).Once turns fun c => c.Disposes c.step s :=
  once_of_lasts (F := fun w => s.serial ∈ w.custody.returned ∧ s ∉ w.given) (disposed_lasts s)
    fun _ _ _ _ disposes h => h.2 disposes.had

/-- What was given back and is with no caller any more has been destroyed by one. -/
theorem happens_disposes (h : (start v programs).Happens turns fun c => ∃ n id, c.GivesBack c.step s n id)
    (hs : s ∉ ((start v programs).play turns).world.given) :
    (start v programs).Happens turns fun c => c.Disposes c.step s := by
  induction turns using List.reverseRecOn with
  | nil => exact absurd h not_happens_nil
  | append_singleton turns i ih =>
    rw [happens_concat] at h ⊢
    rcases turn_cases (start v programs) turns i with ⟨hsame, hnone⟩ | ⟨c, hc, hbefore, hafter⟩
    · rw [hsame] at hs
      rcases h with h | ⟨c, hc, -⟩
      · exact .inl (ih h hs)
      · exact absurd hc (hnone c)
    · rw [hafter] at hs
      rcases h with h | ⟨c', hc', n, id, gives⟩
      · by_cases had : s ∈ c.world.given
        · obtain ⟨t, hserial, disposes⟩ := Config.disposes_of_not_mem had hs
          have hnodup : (c.world.given.map Stored.serial).Nodup := hbefore ▸ nodup_given
          obtain rfl : t = s := List.inj_on_of_nodup_map hnodup disposes.had had hserial
          exact .inr ⟨c, hc, disposes⟩
        · exact .inl (ih h (hbefore ▸ had))
      · cases hc.unique hc'
        rw [gives.given] at hs
        exact absurd List.mem_cons_self hs

/-- **A caller has what was given back until it destroys it.** -/
theorem not_mem_given_iff (h : (start v programs).IsAt turns s .returned) :
    s ∉ ((start v programs).play turns).world.given ↔
      (start v programs).Happens turns fun c => c.Disposes c.step s := by
  refine ⟨happens_disposes h, fun hdisposed => ?_⟩
  have hgone := of_happens (F := fun w => s.serial ∈ w.custody.returned ∧ s ∉ w.given) (disposed_lasts s) hdisposed
  exact hgone.2

/-! ### Conservation -/

/-- **Values are conserved**, whatever the programs do and whoever takes the turns. -/
theorem values_conserved (v : Verbosity) (programs : List (Program α)) (turns : List Nat) :
    (start v programs).Conserved turns := by
  have htends := play_tends v programs turns
  exact {
    numbered := once_handsOver
    offered := fun j c s n id next ht hoffer => ht.shifts.offered hoffer
    placed := by
      intro s n id h
      simp only [h.isAt_iff]
      exact htends.settled.exists_unique_place (serial_lt h)
    origin := fun s p h => h.handedOver
    home := by
      intro s n id m x h hs
      obtain ⟨-, hn, hid⟩ := (handedOver_of_valueAt hs).unique h rfl
      exact ⟨hn, hid⟩
    tended := fun s n id hs => htends.tended s.serial n id (World.has_bound hs)
    once := once_parts
    answers := fun j c call next k a next' _ control reply => Config.gives_of_popped control reply
    had := fun s hs => happens_of_given hs
    kept := fun s h => not_mem_given_iff h
    disposed := once_disposes
    ends := fun j c scope next rest ht hend hf => ht.ends hend hf
    told := by
      intro s n id h
      refine ⟨mem_addresses.2 ?_, fun p => h.isAt_iff⟩
      obtain ⟨j, c, ht, next, hoffer⟩ := h
      exact ⟨j, c, ht, s, n, id, next, rfl, hoffer⟩
    told_once := ⟨htends.settled.returned, htends.settled.destroyed⟩ }

/-- Four values are handed over: one stays bound, one is refused, one is given back and destroyed by the caller, and one
is released. -/
def handsOverFour : Program String :=
  .call (.create (.named "a")) fun _ => .call (.add (.named "a") 1 (.plain "w")) fun _ =>
    .call (.add (.named "a") 1 (.plain "x")) fun _ => .call (.add (.named "a") 2 (.plain "y")) fun _ =>
      .call (.pop (.named "a") 2) fun _ => .call (.dispose 2) fun _ =>
        .call (.add (.named "a") 3 (.plain "z")) fun _ => .call (.release ⟨3, 0⟩) fun _ => .idle

/-- Each is where it should be, and nowhere else. -/
theorem four_values_conserved : ∃ (P : Pool String) (turns : List Nat), P = start .trace [handsOverFour] ∧
    (P.HandedOver turns ⟨0, .plain "w"⟩ 0 1 ∧ ∀ p, P.IsAt turns ⟨0, .plain "w"⟩ p ↔ p = .bound 0 1) ∧
    (P.HandedOver turns ⟨1, .plain "x"⟩ 0 1 ∧ ∀ p, P.IsAt turns ⟨1, .plain "x"⟩ p ↔ p = .destroyed) ∧
    (P.HandedOver turns ⟨2, .plain "y"⟩ 0 2 ∧ (∀ p, P.IsAt turns ⟨2, .plain "y"⟩ p ↔ p = .returned) ∧
      P.Happens turns fun c => c.Disposes c.step ⟨2, .plain "y"⟩) ∧
    P.HandedOver turns ⟨3, .plain "z"⟩ 0 3 ∧ ∀ p, P.IsAt turns ⟨3, .plain "z"⟩ p ↔ p = .destroyed := by
  have hconserved := values_conserved .trace [handsOverFour] (List.replicate 17 0)
  -- a value is where the journal tells, and in one place only
  have hplace : ∀ {s n id} (p : Place), (start .trace [handsOverFour]).HandedOver (List.replicate 17 0) s n id →
      ((start .trace [handsOverFour]).play (List.replicate 17 0)).world.custody.Has s.serial p →
      ∀ q, (start .trace [handsOverFour]).IsAt (List.replicate 17 0) s q ↔ q = p := by
    intro s n id p h hhas q
    have hp := ((hconserved.told s n id h).2 p).2 hhas
    exact ⟨fun hq => (hconserved.placed s n id h).unique hq hp, fun hq => hq ▸ hp⟩
  have hw : (start .trace [handsOverFour]).HandedOver (List.replicate 17 0) ⟨0, .plain "w"⟩ 0 1 :=
    ⟨2, _, ⟨0, _, rfl, rfl, rfl, rfl⟩, _, rfl, _, _, rfl, rfl, rfl⟩
  have hx : (start .trace [handsOverFour]).HandedOver (List.replicate 17 0) ⟨1, .plain "x"⟩ 0 1 :=
    ⟨4, _, ⟨0, _, rfl, rfl, rfl, rfl⟩, _, rfl, _, _, rfl, rfl, rfl⟩
  have hy : (start .trace [handsOverFour]).HandedOver (List.replicate 17 0) ⟨2, .plain "y"⟩ 0 2 :=
    ⟨7, _, ⟨0, _, rfl, rfl, rfl, rfl⟩, _, rfl, _, _, rfl, rfl, rfl⟩
  have hz : (start .trace [handsOverFour]).HandedOver (List.replicate 17 0) ⟨3, .plain "z"⟩ 0 3 :=
    ⟨14, _, ⟨0, _, rfl, rfl, rfl, rfl⟩, _, rfl, _, _, rfl, rfl, rfl⟩
  have hreturned : [2] = ((start .trace [handsOverFour]).play (List.replicate 17 0)).world.custody.returned := rfl
  have hdestroyed : [3, 1] = ((start .trace [handsOverFour]).play (List.replicate 17 0)).world.custody.destroyed := rfl
  have hgiven : [] = ((start .trace [handsOverFour]).play (List.replicate 17 0)).world.given := rfl
  have hy' := hplace .returned hy ((congrArg (2 ∈ ·) hreturned).mp (by decide))
  exact ⟨_, _, rfl, ⟨hw, hplace (.bound 0 1) hw rfl⟩,
    ⟨hx, hplace .destroyed hx ((congrArg (1 ∈ ·) hdestroyed).mp (by decide))⟩,
    ⟨hy, hy', (hconserved.kept _ ((hy' .returned).2 rfl)).1 (hgiven ▸ List.not_mem_nil)⟩,
    hz, hplace .destroyed hz ((congrArg (3 ∈ ·) hdestroyed).mp (by decide))⟩

end Pool

end SlotRegistry
