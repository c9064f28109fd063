import SlotRegistry.Proofs.Machine.Course
/-!
# Extent — what a call leaves behind when it is over

The extent of a call is the part of a run from its first step up to its reply, with all user code that runs inside it.
When the call is over, every cell has the lock and the detector it had; and the registry of its cell is as it was when
the call was refused or broke off, unless what broke off was the end of a value that a release had removed.
-/
namespace SlotRegistry

variable {α : Type}

/-- A stack with its running thread stands above the stack `base` of the thread `t`. -/
inductive Above (t : Thread) (base : List (Frame α)) : Thread → List (Frame α) → Prop
  | base : Above t base t base
  | call {u : Thread} {rest : List (Frame α)} {s : Scope α} {next : Outcome α → Program α} (h : Above t base u rest) :
      Above t base u (.call s next :: rest)
  | join {u v : Thread} {rest : List (Frame α)} {goOn : Verdict → Option (List (Answer α)) → Program α}
      (h : Above t base v rest) : Above t base u (.join v goOn :: rest)

section Above

variable {t u : Thread} {base stack : List (Frame α)} {f : Frame α}

theorem Above.length_le (h : Above t base u stack) : base.length ≤ stack.length := by
  induction h with
  | base => exact Nat.le_refl _
  | call _ ih => exact Nat.le_succ_of_le ih
  | join _ ih => exact Nat.le_succ_of_le ih

theorem Above.ne_of_cons (h : Above t (f :: base) u stack) : stack ≠ base := by
  rintro rfl
  have := h.length_le
  simp only [List.length_cons] at this
  omega

theorem Above.thread_eq (h : Above t base u base) : u = t := by
  generalize hs : base = stack at h
  cases h with
  | base => rfl
  | call h => exact absurd h.length_le (Nat.not_succ_le_self _)
  | join h => exact absurd h.length_le (Nat.not_succ_le_self _)

theorem Above.mem (h : Above t base u stack) (hf : f ∈ base) : f ∈ stack := by
  induction h with
  | base => exact hf
  | call _ ih => exact List.mem_cons_of_mem _ ih
  | join _ ih => exact List.mem_cons_of_mem _ ih

theorem exists_unfinished {s : Scope α} {next : Outcome α → Program α} :
    ∀ (t : Thread) (stack : List (Frame α)), .call s next ∈ stack → ∃ u, (u, s) ∈ unfinished t stack
  | t, .call s' next' :: rest, h => by
    rcases List.mem_cons.1 h with heq | hmem
    · cases heq
      exact ⟨t, List.mem_cons_self⟩
    · obtain ⟨u, hu⟩ := exists_unfinished t rest hmem
      exact ⟨u, List.mem_cons_of_mem _ hu⟩
  | t, .join v goOn :: rest, h => by
    rcases List.mem_cons.1 h with heq | hmem
    · cases heq
    · exact exists_unfinished v rest hmem

theorem exists_frame {s : Scope α} :
    ∀ (t : Thread) (stack : List (Frame α)), (u, s) ∈ unfinished t stack → ∃ next, .call s next ∈ stack
  | t, .call s' next' :: rest, h => by
    rcases List.mem_cons.1 h with heq | hmem
    · cases heq
      exact ⟨next', List.mem_cons_self⟩
    · obtain ⟨next, hmem⟩ := exists_frame t rest hmem
      exact ⟨next, List.mem_cons_of_mem _ hmem⟩
  | t, .join v goOn :: rest, h => by
    obtain ⟨next, hmem⟩ := exists_frame v rest h
    exact ⟨next, List.mem_cons_of_mem _ hmem⟩

end Above

namespace Config

open Ledger (Sound Dead)

variable {c d e : Config α} {n : CellId} {t : Thread} {base : List (Frame α)} {next : Outcome α → Program α}
  {s : Scope α} {x : Outcome α}

theorem Grows.above (hg : Grows c d) (h : Above t base c.thread c.stack) : Above t base d.thread d.stack := by
  obtain ⟨hthread, ⟨hstack, -⟩ | ⟨s, next, hstack⟩⟩ := hg
  · rw [hthread, hstack]; exact h
  · rw [hthread, hstack]; exact .call h

/-- **What stands above a stack stays above it** until the code that runs on that stack itself has ended. -/
theorem step_above (h : Above t base c.thread c.stack)
    (hne : ∀ v report, c.control = .running (.finish v report) → c.stack ≠ base) :
    Above t base c.step.thread c.step.stack := by
  unfold step
  split
  · exact (begins_perform _ _).grows.above h
  · exact h
  · exact .join h
  · rename_i v report hc
    split
    · exact h
    · rename_i s next stack hstack
      rw [hstack] at h
      refine (goes_resume (c := { c with stack := stack })).grows.above ?_
      generalize hs : Frame.call s next :: stack = whole at h
      cases h with
      | base => exact absurd (hstack.trans hs) (hne v report hc)
      | call h => cases hs; exact h
      | join h => cases hs
    · rename_i u next stack hstack
      rw [hstack] at h
      generalize hs : Frame.join u next :: stack = whole at h
      cases h with
      | base => exact absurd (hstack.trans hs) (hne v report hc)
      | call h => cases hs
      | join h => cases hs; exact h
  · exact h
  · exact grows_tearOn.above h
  · exact h
  · exact h

/-! ### The extent of a call -/

/-- A call made on the stack `base` is over. -/
def Returned (d : Config α) (base : List (Frame α)) : Prop :=
  d.stack = base ∧ ∃ x next, d.control = .replying x next

/-- From the first step of the call that `c` makes up to its reply. -/
inductive Extent (c : Config α) : Config α → Prop
  | begun : Extent c c.step
  | going {d : Config α} (h : Extent c d) (unfinished : ¬ d.Returned c.stack) : Extent c d.step

theorem Extent.reaches (h : Extent c d) : Reaches c d := by
  induction h with
  | begun => exact .tail (.refl c)
  | going _ _ ih => exact .tail ih

/-- In the extent of a call made on `base`, user code runs above a call that stands on `base`. -/
def Under (t : Thread) (base : List (Frame α)) (d : Config α) : Prop :=
  (d.thread = t ∧ d.stack = base ∧ ∀ p, d.control ≠ .running p) ∨
  ∃ s next, Above t (.call s next :: base) d.thread d.stack

theorem Grows.under (hg : Grows c d) : Under c.thread c.stack d := by
  obtain ⟨hthread, ⟨hstack, hidle⟩ | ⟨s, next, hstack⟩⟩ := hg
  · exact .inl ⟨hthread, hstack, hidle⟩
  · refine .inr ⟨s, next, ?_⟩
    rw [hthread, hstack]
    exact .base

theorem step_of_idle (hidle : ∀ p, c.control ≠ .running p) (hx : ∀ x next, c.control ≠ .replying x next)
    (ht : c.control.torn = none) : c.step = c := by
  unfold step
  split <;> simp_all [Control.torn]

theorem step_under (h : Under t base d) (unfinished : ¬ d.Returned base) : Under t base d.step := by
  rcases h with ⟨rfl, rfl, hidle⟩ | ⟨s, next, habove⟩
  · cases hc : d.control with
    | running p => exact absurd hc (hidle p)
    | replying x next => exact absurd ⟨rfl, x, next, hc⟩ unfinished
    | tearing n ahead x next =>
      rw [step, hc]
      exact grows_tearOn.under
    | blocked => rw [step, hc]; exact .inl ⟨rfl, rfl, hidle⟩
    | aborted => rw [step, hc]; exact .inl ⟨rfl, rfl, hidle⟩
  · by_cases hfin : d.stack = .call s next :: base ∧ ∃ v report, d.control = .running (.finish v report)
    · obtain ⟨hstack, v, report, hc⟩ := hfin
      rw [hstack] at habove
      rw [step_of_finish hc hstack, ← habove.thread_eq]
      exact (goes_resume (c := { d with stack := base })).grows.under
    · exact .inr ⟨s, next, step_above habove (fun v report hc hstack => hfin ⟨hstack, v, report, hc⟩)⟩

theorem Extent.under {call : Call α (Program α)} (hc : c.control = .running (.call call next)) (h : Extent c d) :
    Under c.thread c.stack d := by
  induction h with
  | begun => rw [step_of_call hc]; exact (begins_perform _ call).grows.under
  | going _ unfinished ih => exact step_under ih unfinished

/-- **A call that is over leaves the thread and the stack as they were.** -/
theorem Extent.thread_eq {call : Call α (Program α)} (hc : c.control = .running (.call call next)) (h : Extent c d)
    (hd : d.stack = c.stack) : d.thread = c.thread := by
  rcases h.under hc with ⟨hthread, -, -⟩ | ⟨s, nx, habove⟩
  · exact hthread
  · exact absurd hd habove.ne_of_cons

/-! ### Locks and detectors -/

theorem length_cells_le (h : Reaches c d) : c.world.cells.length ≤ d.world.cells.length := by
  induction h with
  | refl => exact Nat.le_refl _
  | tail _ ih => exact Nat.le_trans ih (moves_length (step_moves _))
where
  move_length {L L' : Ledger α} (h : Ledger.Move L L') : L.cells.length ≤ L'.cells.length := by
    cases h <;> simp
  moves_length {L L' : Ledger α} (h : Ledger.Moves L L') : L.cells.length ≤ L'.cells.length := by
    induction h with
    | refl => exact Nat.le_refl _
    | tail _ hmove ih => exact Nat.le_trans ih (move_length hmove)

/-- Lock and detector of a cell are known from the unfinished calls. -/
theorem lock_detector_eq {out : CellId → List (Thread × Stake)} {cell cell' : Cell α} (hc : Sound Eq out c.ledger)
    (hd : Sound Eq out d.ledger) (thread : d.thread = c.thread) (stack : d.stack = c.stack)
    (found : c.world.cells[n]? = some cell) (found' : d.world.cells[n]? = some cell') :
    cell'.lock = cell.lock ∧ cell'.detector = cell.detector := by
  have h := hc.tallies n
  have h' := hd.tallies n
  rw [Ledger.cellAt_of_getElem? found] at h
  rw [Ledger.cellAt_of_getElem? found'] at h'
  rw [show d.ledger.thread = c.ledger.thread from thread, show d.ledger.stack = c.ledger.stack from stack] at h'
  refine ⟨Lock.ext_holders (h'.readers.trans h.readers.symm) (h'.writers.trans h.writers.symm), ?_⟩
  have hin := h'.inside.trans h.inside.symm
  cases hdet : cell.detector
  cases hdet' : cell'.detector
  rw [hdet, hdet'] at hin
  exact congrArg Detector.mk hin

/-! ### The registry of a call that fails -/

theorem locked_of_inside {R : List Thread → List Thread → Prop} (hR : Tracks R) {out : CellId → List (Thread × Stake)}
    (hc : Sound R out c.ledger) (hf : .call s next ∈ c.stack) (hin : s.IsInside n) :
    ∃ cell, c.world.cells[n]? = some cell ∧ cell.lock ≠ .free ∧ cell.owners ≠ 0 := by
  obtain ⟨u, hu⟩ := exists_unfinished c.thread c.stack hf
  have hmem : u ∈ entered (stakesAt n c.thread c.stack) := mem_entered_stakesAt.2 ⟨s, hu, hin⟩
  obtain ⟨k, -, hstake⟩ := mem_entered.1 hmem
  obtain ⟨cell, found, ho⟩ := hc.owners_pos_of_mem (List.mem_append_left (out n) hstake)
  have ht := hc.tallies n
  rw [Ledger.cellAt_of_getElem? found] at ht
  refine ⟨cell, found, fun hl => ?_, Nat.ne_of_gt ho⟩
  have hr := hR.mem_iff ht.readers u
  have hw := hR.mem_iff ht.writers u
  rw [hl] at hr hw
  rcases mem_holding_of_mem_entered hmem with h | h
  · cases hr.2 (mem_holding.2 (List.mem_append_left _ (mem_holding.1 h)))
  · cases hw.2 (mem_holding.2 (List.mem_append_left _ (mem_holding.1 h)))

/-- The registry of a cell. -/
def HasRegistry (n : CellId) (r : Registry (Stored α)) (c : Config α) : Prop :=
  ∃ cell, c.world.cells[n]? = some cell ∧ cell.registry = r

variable {r : Registry (Stored α)}

theorem Spares.hasRegistry (h : Spares n c d) (hc : HasRegistry n r c) : HasRegistry n r d := by
  obtain ⟨cell, found, rfl⟩ := hc
  obtain ⟨cell', found', hr⟩ := h cell found
  exact ⟨cell', found', hr⟩

/-- **A step keeps the registry of a cell that a call on the stack is inside of.** -/
theorem step_hasRegistry {R : List Thread → List Thread → Prop} (hR : Tracks R) {out : CellId → List (Thread × Stake)}
    (hc : Sound R out c.ledger) (hf : .call s next ∈ c.stack) (hin : s.IsInside n) (kept : HasRegistry n r c) :
    HasRegistry n r c.step := by
  obtain ⟨cell, found, hl, ho⟩ := locked_of_inside hR hc hf hin
  have htorn : c.control.torn ≠ some n := by
    intro ht
    obtain ⟨cell', found', ho'⟩ := hc.torn n ht
    rw [show c.ledger.cells[n]? = some cell from found] at found'
    cases found'
    exact ho ho'
  refine Spares.hasRegistry (spares_step (fun cell' found' => ?_) htorn) kept
  rw [found] at found'
  cases found'
  exact hl

/-- A scope that keeps the cell `n` locked on the stack `base`, by itself or because a call below is inside. -/
def Guards (n : CellId) (base : List (Frame α)) (s : Scope α) : Prop :=
  s.IsInside n ∨ s = .bouncing n ∧ ∃ s' next, .call s' next ∈ base ∧ s'.IsInside n

theorem Guards.stake_eq (h : Guards n base s) : s.stake.map Prod.fst = some n := by
  rcases h with hin | ⟨rfl, -⟩
  · obtain ⟨k, -, hs⟩ := Scope.isInside_iff.1 hin
    rw [hs]
    rfl
  · rfl

theorem Guards.exists_inside (h : Guards n base s) (habove : Above t (.call s next :: base) c.thread c.stack) :
    ∃ s' next', Frame.call s' next' ∈ c.stack ∧ s'.IsInside n := by
  rcases h with hin | ⟨-, s', next', hmem, hin⟩
  · exact ⟨s, next, habove.mem List.mem_cons_self, hin⟩
  · exact ⟨s', next', habove.mem (List.mem_cons_of_mem _ hmem), hin⟩

/-- What holds in the extent of a call on the cell `n` that has written nothing: the cell has died, or it keeps the
registry `r` while the call goes on, and when the call fails. -/
inductive Intact (n : CellId) (r : Registry (Stored α)) (t : Thread) (base : List (Frame α)) (d : Config α) : Prop
  | dead (h : d.ledger.Dead n)
  | ended (thread : d.thread = t) (stack : d.stack = base) (idle : ∀ p, d.control ≠ .running p)
      (torn : d.control.torn = none)
      (kept : ∀ x next, d.control = .replying x next → x.failed = true → HasRegistry n r d)
  | within (s : Scope α) (next : Outcome α → Program α) (above : Above t (.call s next :: base) d.thread d.stack)
      (guards : Guards n base s) (kept : HasRegistry n r d)

theorem Goes.intact {out : CellId → List (Thread × Stake)} (h : Goes c (some n) next d) (hd : Sound Eq out d.ledger)
    (hr : HasRegistry n r c) : Intact n r c.thread c.stack d := by
  cases h with
  | ends m h here =>
    obtain rfl := here n rfl
    cases ht : d.control.torn with
    | none => exact .ended h.thread h.stack h.idle ht (fun _ _ _ _ => (h.spares m).hasRegistry hr)
    | some k =>
      obtain rfl := h.torn k ht
      exact .dead (hd.torn m ht)
  | enters s kept thread stack spares here =>
    refine .within s next ?_ (.inl (here n rfl)) ((spares n).hasRegistry hr)
    rw [thread, stack]
    exact .base

/-- The code that destroys a value runs because a release removed it. -/
def discards (c : Config α) : Prop := ∃ n next, c.step.stack = .call (.discarding n) next :: c.stack

theorem Begins.intact {ticket : Option Ticket} (h : Begins c (some n) ticket next d)
    (hc : Sound Eq (fun _ => []) c.ledger)
    (hd : Sound Eq (fun _ => []) d.ledger) (hn : ∀ m nx, d.stack ≠ .call (.discarding m) nx :: c.stack)
    (hr : HasRegistry n r c) : Intact n r c.thread c.stack d := by
  cases h with
  | goes h => exact h.intact hd hr
  | bounces m cell here found inside thread stack spares =>
    cases here
    -- who is inside has an unfinished call there, below the one that is turned away
    have hin : c.thread ∈ entered (stakesAt n c.thread c.stack) := by
      have ht := (hc.tallies n).inside
      rw [Ledger.cellAt_of_getElem? found, List.append_nil] at ht
      rw [← show cell.detector.inside = entered (stakesAt n c.thread c.stack) from ht]
      exact inside
    obtain ⟨s', hmem, hs'⟩ := mem_entered_stakesAt.1 hin
    obtain ⟨next', hframe⟩ := exists_frame _ _ hmem
    refine .within (.bouncing n) next ?_ (.inr ⟨rfl, s', next', hframe, hs'⟩) ((spares n).hasRegistry hr)
    rw [thread, stack]
    exact .base
  | writes m cell x found free thread stack control ok =>
    refine .ended thread stack (fun p hp => by rw [control] at hp; cases hp) (by rw [control]; rfl) ?_
    intro x' next' hx hfailed
    rw [control] at hx
    cases hx
    rw [ok] at hfailed
    cases hfailed
  | removes r cell v here found free slot thread stack => exact absurd stack (hn r.cell next)

/-- **A step keeps the registry of a call on `n` that has written nothing.** -/
theorem step_intact (h : Intact n r t base d) (hd : Sound Eq (fun _ => []) d.ledger) (unfinished : ¬ d.Returned base) :
    Intact n r t base d.step := by
  cases h with
  | dead h => exact .dead (step_dead tracks_eq hd h)
  | ended thread stack idle torn kept =>
    have hstep : d.step = d := step_of_idle idle (fun x next hc => unfinished ⟨stack, x, next, hc⟩) torn
    rw [hstep]
    exact .ended thread stack idle torn kept
  | within s next above guards kept =>
    obtain ⟨s', next', hframe, hin⟩ := guards.exists_inside above
    by_cases hfin : d.stack = .call s next :: base ∧ ∃ v report, d.control = .running (.finish v report)
    · obtain ⟨hstack, v, report, hc⟩ := hfin
      have hgoes : Goes { d with stack := base } (s.stake.map Prod.fst) next
          ({ d with stack := base }.resume s next v report) := goes_resume
      rw [guards.stake_eq, ← step_of_finish hc hstack] at hgoes
      rw [hstack] at above
      rw [← above.thread_eq]
      exact hgoes.intact (step_sound tracks_eq hd) kept
    · exact .within s next (step_above above (fun v report hc hstack => hfin ⟨hstack, v, report, hc⟩)) guards
        (step_hasRegistry tracks_eq hd hframe hin kept)

theorem Extent.intact {call : Call α (Program α)} (hsound : Sound Eq (fun _ => []) c.ledger)
    (hc : c.control = .running (.call call next)) (hn : call.entered? c.world = some n) (hw : ¬ c.discards)
    (hr : HasRegistry n r c) (h : Extent c d) : Intact n r c.thread c.stack d := by
  induction h with
  | begun =>
    have hbegins := begins_perform (c := c) next call
    rw [hn, ← step_of_call hc] at hbegins
    exact hbegins.intact hsound (step_sound tracks_eq hsound) (fun m nx hstack => hw ⟨m, nx, hstack⟩) hr
  | going h unfinished ih => exact step_intact ih (h.reaches.sound tracks_eq hsound) unfinished

/-! ### A release whose removed value breaks off -/

theorem Begins.removed {o : Option CellId} {ticket : Option Ticket} (h : Begins c o ticket next d) {m : CellId}
    {nx : Outcome α → Program α} (hd : d.stack = .call (.discarding m) nx :: c.stack) :
    ∃ r cell v, ticket = some r ∧ c.world.cells[r.cell]? = some cell ∧ cell.registry.slot? r.id = some (.occupied v) ∧
      d.world.cells = c.world.cells.set r.cell (cell.withRegistry (cell.registry.remove r.id)).addOwner := by
  cases h with
  | goes h =>
    cases h with
    | ends k h here => exact absurd (h.stack.symm.trans hd).symm (List.cons_ne_self _ _)
    | enters s kept thread stack =>
      rw [stack] at hd
      simp only [List.cons.injEq, Frame.call.injEq] at hd
      exact absurd hd.1.1 (kept m)
  | bounces n cell here found inside thread stack =>
    rw [stack] at hd
    simp at hd
  | writes k cell x found free thread stack => exact absurd (stack.symm.trans hd).symm (List.cons_ne_self _ _)
  | removes r cell v here found free slot thread stack cells => exact ⟨r, cell, v, here, found, slot, cells⟩

theorem cores_letGo : (c.letGo n x next).world.cores = c.world.cores := by
  unfold letGo
  split
  · rfl
  · rename_i cell hc
    split
    · exact World.cores_put hc rfl
    · exact World.cores_put hc rfl

theorem control_letGo :
    (c.letGo n x next).control = .replying x next ∨ (c.letGo n x next).control.torn = some n := by
  unfold letGo
  split
  · exact .inl rfl
  · split
    · exact .inr rfl
    · exact .inl rfl

/-- A message raised while a removed value is destroyed undoes nothing. -/
theorem step_of_discarding {message : String} {report : Option (List (Answer α))}
    (hs : d.stack = .call (.discarding n) next :: base) (hc : d.control = .running (.finish (.raise message) report)) :
    d.step.world.cores = d.world.cores ∧ d.step.stack = base ∧
      (d.step.control = .replying (.raised message #[]) next ∨ d.step.control.torn = some n) := by
  rw [step_of_finish hc hs]
  exact ⟨cores_letGo (c := { d with stack := base }), (ends_letGo (c := { d with stack := base })).stack, control_letGo⟩

theorem ticket?_eq_some {call : Call α (Program α)} {ticket : Ticket} (h : call.ticket? = some ticket) :
    call = .release ticket := by
  cases call <;> cases h
  rfl

/-- **What a call leaves behind when it is over.**  Every cell has the lock and the detector it had.  When the call was
refused or broke off, the registry of its cell is as it was, if the cell still has owners.  The only exception is a
release that removed a value: the id is removed at once, and a message raised while the value is destroyed undoes
nothing. -/
theorem call_leaves {v : Verbosity} {p : Program α} {call : Call α (Program α)} {nx : Outcome α → Program α}
    (h : Reaches (initial (World.empty v) p) c) (hc : c.control = .running (.call call next)) (he : c.Extent d)
    (hx : d.control = .replying x nx) (hs : d.stack = c.stack) :
    (∀ (n : CellId) (cell : Cell α), c.world.cells[n]? = some cell →
      ∃ cell' : Cell α, d.world.cells[n]? = some cell' ∧ cell'.lock = cell.lock ∧ cell'.detector = cell.detector) ∧
    (∀ (n : CellId) (cell cell' : Cell α), call.entered? c.world = some n → x.failed = true → ¬ c.discards →
      c.world.cells[n]? = some cell → d.world.cells[n]? = some cell' → cell'.owners ≠ 0 →
      cell'.registry = cell.registry) ∧
    (c.discards → ∃ (ticket : Ticket) (cell : Cell α) (s : Stored α), call = .release ticket ∧
      c.world.cells[ticket.cell]? = some cell ∧
      cell.registry.slot? ticket.id = some (.occupied s) ∧
      c.step.world.cores = (c.world.put ticket.cell (cell.withRegistry (cell.registry.remove ticket.id))).cores ∧
      ∀ e message report nx, c.Extent e → e.stack = .call (.discarding ticket.cell) nx :: c.stack →
        e.control = .running (.finish (.raise message) report) →
        e.step.world.cores = e.world.cores ∧ e.step.stack = c.stack ∧
        (e.step.control = .replying (.raised message #[]) nx ∨ e.step.control.torn = some ticket.cell)) := by
  have hsound : Sound Eq (fun _ => []) c.ledger :=
    h.sound tracks_eq (Ledger.sound_of_nil tracks_eq rfl rfl rfl rfl)
  have hsound' : Sound Eq (fun _ => []) d.ledger := he.reaches.sound tracks_eq hsound
  refine ⟨fun n cell found => ?_, fun n cell cell' hn hfailed hw found found' ho => ?_, fun ⟨m, nx', hstack⟩ => ?_⟩
  · have hn : n < d.world.cells.length :=
      Nat.lt_of_lt_of_le (List.getElem?_eq_some_iff.1 found).1 (length_cells_le he.reaches)
    exact ⟨_, List.getElem?_eq_getElem hn,
      lock_detector_eq hsound hsound' (he.thread_eq hc hs) hs found (List.getElem?_eq_getElem hn)⟩
  · cases he.intact hsound hc hn hw ⟨cell, found, rfl⟩ with
    | dead hdead =>
      obtain ⟨other, hother, hzero⟩ := hdead
      rw [show d.ledger.cells[n]? = some cell' from found'] at hother
      cases hother
      exact absurd hzero ho
    | ended thread stack idle torn kept =>
      obtain ⟨other, hother, hr⟩ := kept x nx hx hfailed
      rw [found'] at hother
      cases hother
      exact hr
    | within s next' above => exact absurd hs above.ne_of_cons
  · have hbegins := begins_perform (c := c) next call
    rw [← step_of_call hc] at hbegins
    obtain ⟨ticket, cell, s, hticket, found, slot, cells⟩ := hbegins.removed hstack
    refine ⟨ticket, cell, s, ticket?_eq_some hticket, found, slot, ?_, fun e message report nx _ hes hec =>
      step_of_discarding hes hec⟩
    simp only [World.cores, World.put, cells, List.map_set]
    rfl

/-- A value is refused, and the code that destroys it raises a message. -/
def endsBadly : Program String :=
  .call (.create (.named "a")) fun _ =>
    .call (.set (.named "a") 7 ⟨"x", .finish (.raise "no") none, .idle⟩) fun _ => .idle

theorem call_leaves_when_the_end_raises :
    ∃ c d : Config String, Reaches (initial (World.empty .trace) endsBadly) c ∧ c.Extent d ∧
      d.control = .replying (.raised "no" #[]) (fun _ => .idle) ∧
      (∃ cell', d.world.cells[0]? = some cell' ∧ cell'.lock = .free ∧ cell'.detector = ⟨[]⟩) ∧
      ∀ cell cell', c.world.cells[0]? = some cell → d.world.cells[0]? = some cell' → cell'.registry = cell.registry := by
  have h : Reaches (initial (World.empty .trace) endsBadly) (initial (World.empty .trace) endsBadly).step.step :=
    .tail (.tail (.refl _))
  have he : (initial (World.empty .trace) endsBadly).step.step.Extent _ :=
    .going .begun (fun hr => by obtain ⟨-, x, next, hc⟩ := hr; cases hc)
  obtain ⟨hguards, hkept, -⟩ := call_leaves (x := .raised "no" #[]) h rfl he rfl rfl
  refine ⟨_, _, h, he, rfl, hguards 0 _ rfl, fun cell cell' found found' => ?_⟩
  refine hkept 0 cell cell' rfl rfl (fun ⟨m, nx, hs⟩ => ?_) found found' ?_
  · cases hs
  · cases found'
    decide

end Config

end SlotRegistry
