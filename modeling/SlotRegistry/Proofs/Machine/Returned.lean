import SlotRegistry.Proofs.Machine.Conservation
/-!
# Returned — the values that callers have

A pop leaves a value with its caller, and only the caller can destroy it then.  No other step takes a value to a caller
or away from one (`given_step`), so what callers have is what pops gave back and they have not destroyed since.
-/
namespace SlotRegistry
variable {α : Type}

namespace Config

/-- A caller destroys the value, which it has. -/
structure Disposes (c d : Config α) (s : Stored α) : Prop where
  made : ∃ next, c.control = .running (.call (.dispose s.serial) next) ∧ d.stack = .call .disposing next :: c.stack
  had : s ∈ c.world.given
  given : d.world.given = c.world.given.eraseP (fun t => t.serial = s.serial)
  runs : d.control = .running s.value.onDestroy

variable {c d : Config α} {cell : Cell α} {n : CellId} {id : SlotId} {s t : Stored α} {x : Outcome α}
  {next : Outcome α → Program α} {call : Call α (Program α)} {h : Handle}

/-! ### Calls that leave it to the callers what they have -/

theorem given_letGo : (c.letGo n x next).world.given = c.world.given := by
  unfold letGo
  split
  · rfl
  · split <;> rfl

theorem given_endReading : (c.endReading n x next).world.given = c.world.given := by
  unfold endReading
  split
  · rfl
  · exact given_letGo

theorem given_endWriting : (c.endWriting n x next).world.given = c.world.given := by
  unfold endWriting
  split
  · rfl
  · exact given_letGo

theorem given_rebind : (c.rebind h n x next).world.given = c.world.given := by
  unfold rebind
  dsimp only
  split
  · rfl
  · exact given_letGo

theorem given_walkOn {visit : Array (Visit α) → SlotId → Option α → Program α} {visits : Array (Visit α)}
    {ahead : List SlotId} : (c.walkOn n visit visits ahead next).world.given = c.world.given := by
  cases ahead with
  | nil => exact given_endReading
  | cons id ahead => rfl

theorem given_writing {refused : Config α} {inside : Cell α → Config α} (hr : refused.world.given = c.world.given)
    (hi : ∀ cell, (inside cell).world.given = c.world.given) :
    (c.writing cell refused inside).world.given = c.world.given := by
  rcases writing_cases c cell refused inside with ⟨-, h⟩ | ⟨-, -, h⟩ | ⟨-, -, h⟩
  · rw [h, hr]
  · rw [h]; rfl
  · rw [h, hi]

theorem given_reading {inside : Cell α → Config α} (hi : ∀ cell, (inside cell).world.given = c.world.given) :
    (c.reading cell (c.refuseEntry next) inside).world.given = c.world.given := by
  rcases reading_cases c cell (c.refuseEntry next) inside with ⟨-, h⟩ | ⟨-, -, h⟩ | ⟨-, readers, -, h⟩
  · rw [h]; rfl
  · rw [h]; rfl
  · rw [h, hi]

theorem given_reserve : (c.reserve n cell next).world.given = c.world.given := by
  refine given_writing rfl fun cell => ?_
  split
  · exact given_emit
  · dsimp only
    split
    · split
      · rfl
      · exact given_emit
    · rfl

theorem given_store {v : Value α (Program α)} {event : Event}
    {bind : Registry (Stored α) → SlotId → Stored α → Except Refusal (Registry (Stored α))} :
    (c.store n cell id v bind event x next).world.given = c.world.given := by
  refine given_writing (c := { c with world := (c.world.handOver v n id).2 }) rfl fun cell => ?_
  split
  · exact given_emit (c := { c with world := (c.world.handOver v n id).2 })
  · rfl

theorem given_release {ticket : Ticket} : (c.release ticket next).world.given = c.world.given := by
  unfold release
  split
  · rfl
  · split
    · rfl
    · refine given_writing rfl fun cell => ?_
      dsimp only
      split <;> exact given_emit

theorem given_tearOn {ahead : List SlotId} : (c.tearOn n ahead x next).world.given = c.world.given := by
  unfold tearOn
  split
  · dsimp only
    split <;> rfl
  · rfl

theorem given_withCell {act : CellId → Cell α → Config α} (hact : ∀ n cell, (act n cell).world.given = c.world.given) :
    (c.withCell h next act).world.given = c.world.given := by
  unfold withCell
  split
  · rfl
  · exact hact _ _

theorem given_resume {scope : Scope α} {v : Verdict} {report : Option (List (Answer α))} :
    (c.resume scope next v report).world.given = c.world.given := by
  cases scope with
  | walking n visit visits id value ahead =>
    cases v with
    | goOn => exact given_walkOn
    | stop => exact given_endReading
    | raise message => exact given_endReading
  | copying n payload => cases v <;> exact given_endReading
  | rejecting n why => cases v <;> exact given_endWriting
  | bouncing n =>
    cases v with
    | goOn => exact given_letGo
    | stop => exact given_letGo
    | raise message => rfl
  | discarding n => cases v <;> exact given_letGo
  | tearing n ahead x => cases v <;> cases x <;> rfl
  | disposing => cases v <;> rfl

/-! ### The calls that do not -/

theorem given_pop : (c.pop n cell id next).world.given = c.world.given ∨
    ∃ k a, (c.pop n cell id next).control = .replying (.popped k a) next := by
  rcases writing_cases c cell (c.refuseEntry next) _ with ⟨-, h⟩ | ⟨-, -, h⟩ | ⟨-, -, h⟩
  · rw [pop, h]; exact .inl rfl
  · rw [pop, h]; exact .inl rfl
  · rw [pop, h]
    cases (cell.heldForWriting c.thread).registry.take id with
    | ok p => exact .inr ⟨_, _, rfl⟩
    | error why => exact .inl rfl

theorem disposes_of_given? {k : Nat} (control : c.control = .running (.call (.dispose k) next))
    (given : c.world.given? k = some s) : c.Disposes c.step s := by
  have hstep : c.step = c.dispose k next := step_of_call control
  rw [dispose, given] at hstep
  obtain rfl : s.serial = k := by simpa using List.find?_some given
  exact ⟨⟨next, control, by rw [hstep]; rfl⟩, List.mem_of_find?_eq_some given, by rw [hstep]; rfl, by rw [hstep]; rfl⟩

theorem disposes_of_dispose {k : Nat} (control : c.control = .running (.call (.dispose k) next))
    (stack : c.step.stack ≠ c.stack) : ∃ s, c.Disposes c.step s := by
  cases given : c.world.given? k with
  | none =>
    rw [step_of_call control, perform, dispose, given] at stack
    exact absurd rfl stack
  | some s => exact ⟨s, disposes_of_given? control given⟩

/-- **A step changes what callers have when a pop gives a value back or a caller destroys one**, and only then. -/
theorem given_step (c : Config α) : c.step.world.given = c.world.given ∨
    (∃ s n id, c.GivesBack c.step s n id) ∨ ∃ s, c.Disposes c.step s := by
  cases control : c.control with
  | running p =>
    cases p with
    | finish v report =>
      left
      cases stack : c.stack with
      | nil => rw [step, control]; simp only [stack]
      | cons f rest =>
        cases f with
        | call scope next => rw [step_of_finish control stack]; exact given_resume
        | join u goOn => rw [step, control]; simp only [stack]
    | call call next =>
      have hstep := step_of_call control
      cases call with
      | create h => exact .inl (hstep ▸ given_rebind)
      | share source target => exact .inl (hstep ▸ given_withCell fun _ _ => given_rebind)
      | hold h => exact .inl (hstep ▸ given_withCell fun _ _ => given_rebind)
      | giveUp h => exact .inl (hstep ▸ given_withCell fun _ _ => given_letGo)
      | inspect h => exact .inl (hstep ▸ given_withCell fun _ _ => rfl)
      | reserve h => exact .inl (hstep ▸ given_withCell fun _ _ => given_reserve)
      | add h id v => exact .inl (hstep ▸ given_withCell fun _ _ => given_store)
      | set h id v => exact .inl (hstep ▸ given_withCell fun _ _ => given_store)
      | pop h id =>
        have hpop : c.step.world.given = c.world.given ∨ ∃ k a, c.step.control = .replying (.popped k a) next := by
          rw [hstep, perform, withCell]
          split
          · exact .inl rfl
          · exact given_pop
        rcases hpop with hsame | ⟨k, a, reply⟩
        · exact .inl hsame
        · obtain ⟨s, n, id, gives, -⟩ := gives_of_popped control reply
          exact .inr (.inl ⟨s, n, id, gives⟩)
      | get h id => exact .inl (hstep ▸ given_withCell fun _ _ => given_reading fun _ => by split <;> rfl)
      | contains h id => exact .inl (hstep ▸ given_withCell fun _ _ => given_reading fun _ => rfl)
      | size h => exact .inl (hstep ▸ given_withCell fun _ _ => given_reading fun _ => rfl)
      | isEmpty h => exact .inl (hstep ▸ given_withCell fun _ _ => given_reading fun _ => rfl)
      | cursor h => exact .inl (hstep ▸ given_withCell fun _ _ => given_reading fun _ => rfl)
      | walk h visit => exact .inl (hstep ▸ given_withCell fun _ _ => given_reading fun _ => given_walkOn)
      | release ticket => exact .inl (hstep ▸ given_release)
      | dispose k =>
        cases given : c.world.given? k with
        | none => rw [hstep, perform, dispose, given]; exact .inl rfl
        | some s => exact .inr (.inr ⟨s, disposes_of_given? control given⟩)
      | shelve ticket => exact .inl (hstep ▸ rfl)
      | shelved number => exact .inl (hstep ▸ rfl)
      | unshelve number => exact .inl (hstep ▸ rfl)
    | note m p => rw [step, control]; exact .inl rfl
    | onThread body goOn => rw [step, control]; exact .inl rfl
  | replying x next => rw [step, control]; exact .inl rfl
  | tearing n ahead x next => rw [step, control]; exact .inl given_tearOn
  | blocked => rw [step, control]; exact .inl rfl
  | aborted => rw [step, control]; exact .inl rfl

theorem mem_given_step (hs : s ∈ c.step.world.given) : s ∈ c.world.given ∨ ∃ n id, c.GivesBack c.step s n id := by
  rcases given_step c with hsame | ⟨t, n, id, gives⟩ | ⟨t, disposes⟩
  · exact .inl (hsame ▸ hs)
  · rw [gives.given] at hs
    rcases List.mem_cons.1 hs with rfl | hs
    · exact .inr ⟨n, id, gives⟩
    · exact .inl hs
  · rw [disposes.given] at hs
    exact .inl (List.mem_of_mem_eraseP hs)

/-- A caller has a value until it destroys one of that number. -/
theorem disposes_of_not_mem (hs : s ∈ c.world.given) (gone : s ∉ c.step.world.given) :
    ∃ t, t.serial = s.serial ∧ c.Disposes c.step t := by
  rcases given_step c with hsame | ⟨t, n, id, gives⟩ | ⟨t, disposes⟩
  · exact absurd (hsame ▸ hs) gone
  · rw [gives.given] at gone
    exact absurd (List.mem_cons_of_mem t hs) gone
  · refine ⟨t, ?_, disposes⟩
    by_contra hne
    rw [disposes.given] at gone
    exact gone ((List.mem_eraseP_of_neg (by simpa using Ne.symm hne)).2 hs)

end Config

/-- A number that stands once is gone when it is erased. -/
theorem Stored.not_mem_eraseP {s : Stored α} {l : List (Stored α)} (hl : (l.map serial).Nodup) :
    s ∉ l.eraseP fun t => t.serial = s.serial := by
  induction l with
  | nil => exact List.not_mem_nil
  | cons t l ih =>
    obtain ⟨ht, hl⟩ := List.nodup_cons.1 hl
    by_cases hs : t.serial = s.serial
    · rw [List.eraseP_cons_of_pos (by simpa using hs)]
      exact fun h => ht (hs ▸ List.mem_map_of_mem h)
    · rw [List.eraseP_cons_of_neg (by simpa using hs), List.mem_cons]
      rintro (rfl | h)
      · exact hs rfl
      · exact ih hl h

end SlotRegistry
