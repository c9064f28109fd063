import SlotRegistry.Proofs.Machine.Conservation
import SlotRegistry.Proofs.Machine.Extent
import SlotRegistry.Proofs.Machine.Owners
/-!
# Lifetime — how long a registry lives

Handles refer to a registry, and so do the calls on it that are not over; tickets do not.  A registry lives as long as
something refers to it, whoever runs and however calls are nested.  With the last reference it is closed, once, and its
clearing begins; from then on a release does nothing.
-/
namespace SlotRegistry

variable {α : Type}

/-- The call is about tickets that are kept. -/
def Call.keepsTickets : Call α (Program α) → Bool
  | shelve _ | shelved _ | unshelve _ => true
  | _ => false

namespace Config

variable {c : Config α} {n m : CellId} {h : Handle} {next : Outcome α → Program α} {ticket : Ticket}
  {call : Call α (Program α)}

/-! ### Releases -/

theorem step_of_release_dead (hc : c.control = .running (.call (.release ticket) next)) (hd : c.world.Dead ticket.cell) :
    c.step = { c with control := .replying .done next } := by
  obtain ⟨cell, hcell, ho⟩ := hd
  rw [step_of_call hc]
  exact release_of_dead hcell ho

/-- A release that is let in leaves its id absent. -/
theorem slot?_of_release (alive : ¬ c.world.Dead ticket.cell)
    (outside : ∀ cell, c.world.cells[ticket.cell]? = some cell → c.thread ∉ cell.detector.inside)
    (hb : (c.release ticket next).isBlocked = false) :
    ((c.release ticket next).world.registryAt ticket.cell).slot? ticket.id = none := by
  cases hn : c.world.cells[ticket.cell]? with
  | none =>
    have hmissing : (c.reply .done next).world.cells[ticket.cell]? = none := hn
    rw [release_of_missing hn, World.registryAt_of_none hmissing]
    exact Registry.slot?_empty
  | some cell =>
    have ho : cell.owners ≠ 0 := fun ho => alive ⟨cell, hn, ho⟩
    have hin := outside cell hn
    by_cases hl : cell.lock = .free
    · by_cases hs : ∃ v, cell.registry.slot? ticket.id = some (.occupied v)
      · obtain ⟨v, hs⟩ := hs
        rw [release_of_occupied hn ho hin hl hs]
        exact slot?_of_put_remove hn cells_emit rfl
      · rw [release_of_not_occupied hn ho hin hl fun v hv => hs ⟨v, hv⟩]
        exact slot?_of_put_remove hn cells_emit rfl
    · rw [release_of_held hn ho hin hl] at hb
      cases hb

/-! ### Tickets and handles -/

theorem step_of_keepsTickets (hc : c.control = .running (.call call next)) (ht : call.keepsTickets) :
    c.step.world.cells = c.world.cells ∧ c.step.world.handles = c.world.handles ∧
      c.step.world.journal = c.world.journal := by
  rw [step_of_call hc]
  cases call with
  | shelve ticket => exact ⟨rfl, rfl, rfl⟩
  | shelved number => exact ⟨rfl, rfl, rfl⟩
  | unshelve number => exact ⟨rfl, rfl, rfl⟩
  | _ => cases ht

/-- A handle that is given up changes no registry, lock or detector, and no cell dies but its own. -/
theorem step_of_giveUp (hc : c.control = .running (.call (.giveUp h) next)) :
    c.step.world.cores = c.world.cores ∧ ∀ m, c.step.world.Dead m → c.world.Dead m ∨ c.world.find? h = some m := by
  have hstep : c.step = c.withCell h next fun n _ => c.giveUp h n next := step_of_call hc
  rw [hstep]
  unfold withCell
  split
  · exact ⟨rfl, fun m hm => .inl hm⟩
  · rename_i n cell hw
    refine ⟨cores_letGo (c := { c with world := c.world.unbind h }), fun m hm => ?_⟩
    rcases rests_giveUp.dies m hm with hd | ⟨x, nx, htearing⟩
    · exact .inl hd
    · have hcontrol : ({ c with world := c.world.unbind h }.letGo n .done next).control = .replying .done next ∨
          ({ c with world := c.world.unbind h }.letGo n .done next).control.torn = some n := control_letGo
      rcases hcontrol with hreply | htorn
      · rw [giveUp, hreply] at htearing
        cases htearing
      · rw [giveUp] at htearing
        rw [htearing] at htorn
        cases htorn
        exact .inr (cellOf?_eq_some hw).1

end Config

/-! ### References -/

namespace Pool

variable {P : Pool α} {i : Nat} {n : CellId}

/-- Something refers to the cell: a handle that belongs to it, or a call on it that is not over. -/
def Refers (P : Pool α) (n : CellId) : Prop :=
  (∃ h, (h, n) ∈ P.world.handles) ∨
  ∃ s ∈ P.strands, ∃ t scope k, (t, scope) ∈ unfinished s.thread s.stack ∧ scope.stake = some (n, k)

/-- No strand has been broken off by a second message. -/
def Unbroken (P : Pool α) : Prop := ∀ s ∈ P.strands, s.control ≠ .aborted

/-- The owners of every cell are the handles and the calls of all strands. -/
def Counted (P : Pool α) : Prop := P.world.Owned fun n => (heldBy P.strands n).length

theorem refers_iff : P.Refers n ↔ P.world.boundTo n + (heldBy P.strands n).length ≠ 0 := by
  have hbound : (∃ h, (h, n) ∈ P.world.handles) ↔ 0 < P.world.boundTo n := by
    rw [World.boundTo, List.countP_pos_iff]
    constructor
    · rintro ⟨h, hmem⟩
      exact ⟨(h, n), hmem, by simp⟩
    · rintro ⟨⟨h, m⟩, hmem, hm⟩
      cases of_decide_eq_true hm
      exact ⟨h, hmem⟩
  have hheld : (∃ s ∈ P.strands, ∃ t scope k, (t, scope) ∈ unfinished s.thread s.stack ∧
      scope.stake = some (n, k)) ↔ 0 < (heldBy P.strands n).length := by
    rw [List.length_pos_iff_exists_mem]
    constructor
    · rintro ⟨s, hs, t, scope, k, hmem, hstake⟩
      exact ⟨(t, k), List.mem_flatMap.2 ⟨s, hs, mem_stakesAt.2 ⟨scope, hmem, hstake⟩⟩⟩
    · rintro ⟨⟨t, k⟩, hmem⟩
      obtain ⟨s, hs, hk⟩ := List.mem_flatMap.1 hmem
      obtain ⟨scope, hscope, hstake⟩ := mem_stakesAt.1 hk
      exact ⟨s, hs, t, scope, k, hscope, hstake⟩
  rw [Refers, hbound, hheld]
  omega

/-- **A cell is dead when nothing refers to it, and not before.** -/
theorem Counted.dead_iff (hP : P.Counted) (hn : n < P.world.cells.length) : P.world.Dead n ↔ ¬ P.Refers n := by
  have hc : P.world.cells[n]? = some P.world.cells[n] := List.getElem?_eq_getElem hn
  have hcount := World.Owned.count_of_getElem? hP hc
  rw [World.dead_iff, World.owners?_of_getElem? hc, refers_iff, Option.some_inj, hcount, not_not]

theorem start_counted (v : Verbosity) (programs : List (Program α)) : (start v programs).Counted := by
  have hheld : ∀ n, (heldBy (start v programs).strands n).length = 0 := by
    intro n
    rw [List.length_eq_zero_iff, heldBy, List.flatMap_eq_nil_iff]
    intro s hs
    obtain ⟨i, hi, rfl⟩ := List.mem_mapIdx.1 hs
    rfl
  have howned : World.Owned (fun _ => 0) (start v programs).world :=
    (World.owned_empty v).same (fun n => rfl) rfl fun n => rfl
  exact howned.of_refs hheld

theorem length_heldBy_middle (pre post : List (Strand α)) (s : Strand α) (n : CellId) :
    (heldBy (pre ++ s :: post) n).length = (s.stakes n).length + (heldBy (pre ++ post) n).length := by
  rw [heldBy, (flatMap_middle (Strand.stakes n) pre post s).length_eq, List.length_append]
  rfl

/-- **A turn keeps the count,** unless it breaks its strand off. -/
theorem step_counted (hP : P.Counted) (hu : (P.step i).Unbroken) : (P.step i).Counted := by
  cases hs : P.strands[i]? with
  | none =>
    rw [step, hs]
    exact hP
  | some s =>
    rw [step_of_getElem? hs] at hu ⊢
    split at hu
    · rw [if_pos ‹_›]
      exact hP
    · rw [if_neg ‹_›]
      obtain ⟨pre, post, h, hset⟩ := exists_middle hs
      rw [hset] at hu ⊢
      have hbefore : (s.within P.world).Counted fun n => (heldBy (pre ++ post) n).length := by
        refine World.Owned.of_refs hP fun n => ?_
        rw [h, length_heldBy_middle]
        rfl
      have hcontrol : (s.within P.world).step.control ≠ .aborted :=
        hu (s.within P.world).step.strand (List.mem_append_right _ List.mem_cons_self)
      refine World.Owned.of_refs (Config.step_counted hbefore hcontrol) fun n => ?_
      exact length_heldBy_middle pre post _ n

/-- A strand that was broken off stays so. -/
theorem unbroken_of_step (hu : (P.step i).Unbroken) : P.Unbroken := by
  cases hs : P.strands[i]? with
  | none =>
    rw [step, hs] at hu
    exact hu
  | some s =>
    rw [step_of_getElem? hs] at hu
    split at hu
    · exact hu
    · intro s' hs' haborted
      obtain ⟨j, hj⟩ := List.getElem?_of_mem hs'
      by_cases hij : i = j
      · subst hij
        rw [hs] at hj
        cases hj
        have hstep : (s.within P.world).step = s.within P.world := Config.step_of_isOver (by
          rw [Config.isOver, show (s.within P.world).control = .aborted from haborted])
        have hmem := List.mem_set (List.getElem?_eq_some_iff.1 hs).1 (s.within P.world).step.strand
        refine hu _ hmem ?_
        rw [hstep]
        exact haborted
      · refine hu s' (List.mem_of_getElem? (i := j) ?_) haborted
        rw [List.getElem?_set_ne hij]
        exact hj

theorem play_counted (v : Verbosity) (programs : List (Program α)) (turns : List Nat)
    (hu : ((start v programs).play turns).Unbroken) : ((start v programs).play turns).Counted := by
  induction turns using List.reverseRecOn with
  | nil => exact start_counted v programs
  | append_singleton turns i ih =>
    rw [play_concat] at hu ⊢
    exact step_counted (ih (unbroken_of_step hu)) hu

theorem dead_step (hP : P.Kept) (hd : P.world.Dead n) : (P.step i).world.Dead n := by
  cases hs : P.strands[i]? with
  | none =>
    rw [step, hs]
    exact hd
  | some s =>
    obtain ⟨pre, post, h, -⟩ := exists_middle hs
    rw [step_of_getElem? hs]
    split
    · exact hd
    · exact Config.step_dead tracks_perm (hP.strand h).sound hd

theorem dead_play (hP : P.Kept) (turns : List Nat) (hd : P.world.Dead n) : (P.play turns).world.Dead n := by
  induction turns using List.reverseRecOn with
  | nil => exact hd
  | append_singleton turns i ih =>
    rw [play_concat]
    exact dead_step ((reaches_play turns).kept hP) ih

/-- **Registries live as long as something refers to them**; `spoilt` are the cells that were not cleared to the end
because a message was raised. -/
structure Lives (P : Pool α) (spoilt : CellId → Prop) : Prop where
  /-- A cell is dead when nothing refers to it, and not before. -/
  dead_iff : ∀ n < P.world.cells.length, P.world.Dead n ↔ ¬ P.Refers n
  /-- While the value that a release removed is destroyed, the cell is not dead. -/
  in_force : ∀ s ∈ P.strands, ∀ t n, (t, Scope.discarding n) ∈ unfinished s.thread s.stack → ¬ P.world.Dead n
  closed : ∀ n, P.world.Dead n → P.world.journal.countP (Entry.closes n) = 1
  unclosed : ∀ n, ¬ P.world.Dead n → P.world.journal.countP (Entry.closes n) = 0
  /-- In the turn in which a cell dies its clearing begins, with all its ids. -/
  dies : ∀ (i : Nat) (s : Strand α) (n : CellId), P.strands[i]? = some s → (s.within P.world).step.world.Dead n →
    P.world.Dead n ∨ ∃ x next, (s.within P.world).step.control = .tearing n (P.world.registryAt n).ids x next
  /-- A value that is left in a dead cell is about to be destroyed as the cell is cleared. -/
  cleared : ∀ k n id, P.world.Dead n → P.world.custody.Has k (.bound n id) →
    (∃ s ∈ P.strands, s.Clears n id) ∨ spoilt n
  for_ever : ∀ (turns : List Nat) (n : CellId), P.world.Dead n → (P.play turns).world.Dead n
  /-- A release of an id of a dead cell is over at once, and leaves the world as it is. -/
  released_dead : ∀ (i : Nat) (s : Strand α) (ticket : Ticket) (next : Outcome α → Program α),
    P.strands[i]? = some s → s.control = .running (.call (.release ticket) next) → P.world.Dead ticket.cell →
    (s.within P.world).step = { s.within P.world with control := .replying .done next }
  /-- A release of an id of a cell that is not dead, and that its thread is not inside of, makes the id absent. -/
  released : ∀ (i : Nat) (s : Strand α) (ticket : Ticket) (next : Outcome α → Program α),
    P.strands[i]? = some s → s.control = .running (.call (.release ticket) next) → ¬ P.world.Dead ticket.cell →
    (∀ cell, P.world.cells[ticket.cell]? = some cell → s.thread ∉ cell.detector.inside) →
    (s.within P.world).step.isBlocked = false →
    ((s.within P.world).step.world.registryAt ticket.cell).slot? ticket.id = none
  tickets : ∀ (i : Nat) (s : Strand α) (call : Call α (Program α)) (next : Outcome α → Program α),
    P.strands[i]? = some s → s.control = .running (.call call next) → call.keepsTickets →
    (s.within P.world).step.world.cells = P.world.cells ∧ (s.within P.world).step.world.handles = P.world.handles ∧
      (s.within P.world).step.world.journal = P.world.journal
  /-- A handle that is given up changes no registry, lock or detector, and no cell dies but its own. -/
  given_up : ∀ (i : Nat) (s : Strand α) (h : Handle) (next : Outcome α → Program α), P.strands[i]? = some s →
    s.control = .running (.call (.giveUp h) next) → (s.within P.world).step.world.cores = P.world.cores ∧
      ∀ m, (s.within P.world).step.world.Dead m → P.world.Dead m ∨ P.world.find? h = some m

/-- **A registry lives as long as something refers to it, and no longer,** whatever the programs do and whoever takes
the turns. -/
theorem registries_live_while_referred_to (v : Verbosity) (programs : List (Program α)) (turns : List Nat)
    (unbroken : ((start v programs).play turns).Unbroken) :
    ((start v programs).play turns).Lives ((start v programs).SpoiltIn turns) := by
  have hkept := (reaches_play turns).kept (start_kept v programs)
  have hcounted := play_counted v programs turns unbroken
  have htends := play_tends v programs turns
  generalize (start v programs).play turns = P at *
  exact {
    dead_iff := fun n hn => hcounted.dead_iff hn
    in_force := by
      intro s hs t n hmem hd
      have hn : n < P.world.cells.length := by
        obtain ⟨cell, hc, -⟩ := hd
        exact (List.getElem?_eq_some_iff.1 hc).1
      exact (hcounted.dead_iff hn).1 hd (.inr ⟨s, hs, t, .discarding n, .owning, hmem, rfl⟩)
    closed := by
      intro n hd
      rw [World.Owned.once hcounted, if_pos (World.dead_iff.1 hd)]
    unclosed := by
      intro n hd
      rw [World.Owned.once hcounted, if_neg fun h => hd (World.dead_iff.2 h)]
    dies := fun i s n hs hd => (hkept.trade hs).dies hd
    cleared := by
      intro k n id hd hk
      rcases htends.tended k n id hk with halive | hclears | hspoilt
      · exact absurd hd halive
      · exact .inl hclears
      · exact .inr hspoilt
    for_ever := fun turns n hd => dead_play hkept turns hd
    released_dead := fun i s ticket next hs hc hd => Config.step_of_release_dead hc hd
    released := by
      intro i s ticket next hs hc alive outside hb
      have hstep : (s.within P.world).step = (s.within P.world).release ticket next :=
        Config.step_of_call (c := s.within P.world) hc
      rw [hstep] at hb ⊢
      exact Config.slot?_of_release alive outside hb
    tickets := fun i s call next hs hc ht => Config.step_of_keepsTickets hc ht
    given_up := fun i s h next hs hc => Config.step_of_giveUp hc }

/-- The code that destroys a released value gives up the last handle, and releases another id. -/
def givesUpWhileReleased : Program String :=
  .call (.create (.named "a")) fun _ => .call (.add (.named "a") 8 (.plain "y")) fun _ =>
    .call (.add (.named "a") 7
      ⟨"x", .call (.giveUp (.named "a")) fun _ => .call (.release ⟨8, 0⟩) fun _ => .idle, .idle⟩) fun _ =>
      .call (.release ⟨7, 0⟩) fun _ => .idle

/-- The last handle is gone, and while the release has not ended the registry lives, with the release for its owner: the
other release frees its id. -/
theorem lives_until_the_release_ends :
    ∃ (P : Pool String) (s : Strand String), P = (start .trace [givesUpWhileReleased]).play (List.replicate 9 0) ∧
      P.Unbroken ∧ P.strands[0]? = some s ∧ P.world.handles = [] ∧ P.world.owners? 0 = some 1 ∧ ¬ P.world.Dead 0 ∧
      (P.world.registryAt 0).slot? 8 = some (.occupied ⟨0, .plain "y"⟩) ∧
      ((s.within P.world).step.world.registryAt 0).slot? 8 = none := by
  have hunbroken : ((start .trace [givesUpWhileReleased]).play (List.replicate 9 0)).Unbroken := by
    intro s hs hc
    cases List.mem_singleton.1 hs
    cases hc
  have hlives := registries_live_while_referred_to .trace [givesUpWhileReleased] (List.replicate 9 0) hunbroken
  have halive : ¬ ((start .trace [givesUpWhileReleased]).play (List.replicate 9 0)).world.Dead 0 :=
    hlives.in_force _ List.mem_cons_self 0 0 List.mem_cons_self
  refine ⟨_, _, rfl, hunbroken, rfl, rfl, rfl, halive, rfl, ?_⟩
  refine hlives.released 0 _ ⟨8, 0⟩ (fun _ => .idle) rfl rfl halive (fun cell hc => ?_) rfl
  cases hc
  exact List.not_mem_nil

/-- When it has ended, no owner is left. -/
example : ((start .trace [givesUpWhileReleased]).play (List.replicate 13 0)).world.owners? 0 = some 0 := rfl

end Pool

end SlotRegistry
