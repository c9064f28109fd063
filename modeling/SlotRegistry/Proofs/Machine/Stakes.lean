import SlotRegistry.Machine.Step
/-!
# Stakes — what unfinished calls hold of their cells

Every call on the stack is unfinished; its scope says what it holds of its cell meanwhile.  A call that shows entries
or copies a value has its thread registered and the lock held for reading, one that destroys a value it refused has the
lock held for writing, and the others just own their cell.
-/
namespace SlotRegistry

variable {α : Type}

/-- What an unfinished call holds of its cell.  With each it owns the cell as well. -/
inductive Stake
  /-- The thread is registered and holds the lock for reading. -/
  | reading
  /-- The thread is registered and holds the lock for writing. -/
  | writing
  | owning
  deriving DecidableEq, Repr

/-- The cell of a scope and what is held of it, none when no cell takes part. -/
def Scope.stake : Scope α → Option (CellId × Stake)
  | walking n _ _ _ _ _ => some (n, .reading)
  | copying n _ => some (n, .reading)
  | rejecting n _ => some (n, .writing)
  | bouncing n => some (n, .owning)
  | discarding n => some (n, .owning)
  | tearing _ _ _ => none
  | disposing => none

/-- The unfinished calls of a stack, the innermost first, each with its thread; `t` is the running thread. -/
def unfinished : Thread → List (Frame α) → List (Thread × Scope α)
  | _, [] => []
  | t, .call s _ :: rest => (t, s) :: unfinished t rest
  | _, .join u _ :: rest => unfinished u rest

/-- What a call of a thread holds of the cell `n`. -/
def stakeIn (n : CellId) (call : Thread × Scope α) : Option (Thread × Stake) :=
  call.2.stake.bind fun held => if held.1 = n then some (call.1, held.2) else none

/-- Who holds what of the cell `n`, the innermost call first. -/
def stakesAt (n : CellId) (t : Thread) (stack : List (Frame α)) : List (Thread × Stake) :=
  (unfinished t stack).filterMap (stakeIn n)

/-- The threads that are registered on account of some stakes. -/
def entered (stakes : List (Thread × Stake)) : List Thread :=
  (stakes.filter (fun k => decide (k.2 ≠ .owning))).map Prod.fst

/-- The threads that hold the lock in one way on account of some stakes. -/
def holding (way : Stake) (stakes : List (Thread × Stake)) : List Thread :=
  (stakes.filter (fun k => decide (k.2 = way))).map Prod.fst

section Stack

variable {n m : CellId} {t u : Thread} {k : Stake} {s : Scope α} {stack : List (Frame α)}
  {next : Outcome α → Program α} {goOn : Verdict → Option (List (Answer α)) → Program α}

@[simp] theorem stakesAt_nil : stakesAt n t ([] : List (Frame α)) = [] := rfl

@[simp] theorem stakesAt_join : stakesAt n t (.join u goOn :: stack) = stakesAt n u stack := rfl

theorem stakesAt_call_self (h : s.stake = some (n, k)) :
    stakesAt n t (.call s next :: stack) = (t, k) :: stakesAt n t stack := by
  simp [stakesAt, unfinished, stakeIn, h]

theorem stakesAt_call_of_ne (h : s.stake = some (n, k)) (hne : n ≠ m) :
    stakesAt m t (.call s next :: stack) = stakesAt m t stack := by
  simp [stakesAt, unfinished, stakeIn, h, hne]

theorem stakesAt_call_of_none (h : s.stake = none) :
    stakesAt n t (.call s next :: stack) = stakesAt n t stack := by
  simp [stakesAt, unfinished, stakeIn, h]

theorem mem_stakesAt : (u, k) ∈ stakesAt n t stack ↔ ∃ s, (u, s) ∈ unfinished t stack ∧ s.stake = some (n, k) := by
  unfold stakesAt
  rw [List.mem_filterMap]
  constructor
  · rintro ⟨⟨v, s⟩, hmem, hs⟩
    obtain ⟨⟨m, k'⟩, hstake, hif⟩ := Option.bind_eq_some_iff.1 hs
    simp only at hif
    split at hif
    · rename_i hm
      simp only [Option.some.injEq, Prod.mk.injEq] at hif
      obtain ⟨rfl, rfl⟩ := hif
      exact ⟨s, hmem, by rw [← hm]; exact hstake⟩
    · cases hif
  · rintro ⟨s, hmem, hs⟩
    exact ⟨(u, s), hmem, by simp [stakeIn, hs]⟩

end Stack

section Lists

variable {t : Thread} {k : Stake} {stakes others : List (Thread × Stake)}

@[simp] theorem entered_owning : entered ((t, .owning) :: stakes) = entered stakes := by simp [entered]

theorem entered_cons (h : k ≠ .owning) : entered ((t, k) :: stakes) = t :: entered stakes := by simp [entered, h]

@[simp] theorem holding_cons_self : holding k ((t, k) :: stakes) = t :: holding k stakes := by simp [holding]

theorem holding_cons_of_ne {way : Stake} (h : k ≠ way) : holding way ((t, k) :: stakes) = holding way stakes := by
  simp [holding, h]

theorem mem_entered : t ∈ entered stakes ↔ ∃ k, k ≠ .owning ∧ (t, k) ∈ stakes := by
  simp [entered, and_comm]

theorem mem_holding : t ∈ holding k stakes ↔ (t, k) ∈ stakes := by
  simp [holding]

theorem mem_holding_of_mem_entered (h : t ∈ entered stakes) :
    t ∈ holding .reading stakes ∨ t ∈ holding .writing stakes := by
  obtain ⟨k, hk, hmem⟩ := mem_entered.1 h
  cases k with
  | reading => exact .inl (mem_holding.2 hmem)
  | writing => exact .inr (mem_holding.2 hmem)
  | owning => exact absurd rfl hk

end Lists

end SlotRegistry
