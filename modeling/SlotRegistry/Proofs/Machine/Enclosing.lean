import SlotRegistry.Proofs.Machine.Extent
import SlotRegistry.Proofs.Machine.Trade
/-!
# Enclosing — the call that a scope on the stack stands for

A call that comes to user code leaves one scope on the stack it was made on (`leaves_perform`); when a visit of a walk
is over the walk may leave another one there, and nothing else leaves a scope that is inside a cell.  So every scope
inside a cell stands for a call of the run whose extent is not over (`exists_encloses`), and until it is over the
registry of that cell is as it was when the call was made.
-/
namespace SlotRegistry

variable {α : Type}

namespace Registry

variable {r : Registry α} {id : SlotId} {v : α}

theorem insert_eq_error {why : Refusal} (h : r.insert id v = .error why) : why = .taken id := by
  cases hs : r.slot? id with
  | none =>
    rw [insert_of_absent hs] at h
    cases h
  | some slot =>
    rw [insert_of_present (by rw [hs]; rfl)] at h
    cases h
    rfl

theorem fill_eq_error {why : Refusal} (h : r.fill id v = .error why) : why = .taken id ∨ why = .unreserved id := by
  cases hs : r.slot? id with
  | none =>
    rw [fill_of_absent hs] at h
    cases h
    exact .inr rfl
  | some slot =>
    cases slot with
    | reserved =>
      rw [fill_of_reserved hs] at h
      cases h
    | occupied w =>
      rw [fill_of_occupied hs] at h
      cases h
      exact .inl rfl

end Registry

/-- A visit of a walk through the cell `n`. -/
def Scope.IsVisit (n : CellId) (visit : Array (Visit α) → SlotId → Option α → Program α) (s : Scope α) : Prop :=
  ∃ visits id value ahead, s = .walking n visit visits id value ahead

theorem Scope.IsVisit.isInside {n : CellId} {visit : Array (Visit α) → SlotId → Option α → Program α} {s : Scope α}
    (h : s.IsVisit n visit) : s.IsInside n := by
  obtain ⟨visits, id, value, ahead, rfl⟩ := h
  rfl

/-- The scope with which a call comes to user code, and the code that runs first. -/
inductive Opens (w : World α) : Call α (Program α) → Scope α → Program α → Prop
  | walks {h : Handle} {n : CellId} {visit : Array (Visit α) → SlotId → Option α → Program α} {s : Scope α}
      {p : Program α} (here : w.find? h = some n) (visiting : s.IsVisit n visit) : Opens w (.walk h visit) s p
  | copies {h : Handle} {n : CellId} {id : SlotId} {payload : α} {p : Program α} (here : w.find? h = some n) :
      Opens w (.get h id) (.copying n payload) p
  | refuses {call : Call α (Program α)} {h : Handle} {n : CellId} {id : SlotId} {v : Value α (Program α)}
      {why : Refusal} (offer : call.offer? = some (h, id, v)) (here : w.find? h = some n)
      (cause : why = .taken id ∨ why = .unreserved id) : Opens w call (.rejecting n why) v.onDestroy
  | bounces {call : Call α (Program α)} {h : Handle} {n : CellId} {id : SlotId} {v : Value α (Program α)}
      (offer : call.offer? = some (h, id, v)) (here : w.find? h = some n) : Opens w call (.bouncing n) v.onDestroy
  | discards {ticket : Ticket} {p : Program α} : Opens w (.release ticket) (.discarding ticket.cell) p
  | disposes {serial : Nat} {p : Program α} : Opens w (.dispose serial) .disposing p

namespace Config

open Ledger (Sound)

variable {c o c₀ : Config α} {cell : Cell α} {n : CellId} {id : SlotId} {s : Scope α} {x : Outcome α} {p : Program α}
  {next : Outcome α → Program α} {call : Call α (Program α)} {rest : List (Frame α)}

/-! ### What a call leaves on the stack -/

/-- A call leaves the stack as it was, or has come to user code. -/
def Leaves (c : Config α) (call : Call α (Program α)) (next : Outcome α → Program α) (d : Config α) : Prop :=
  d.stack = c.stack ∨ ∃ s p, Opens c.world call s p ∧ d.stack = .call s next :: c.stack ∧ d.control = .running p

theorem stack_writing {refused : Config α} {inside : Cell α → Config α} (hr : refused.stack = c.stack)
    (hi : ∀ cell, (inside cell).stack = c.stack) : (c.writing cell refused inside).stack = c.stack := by
  rcases writing_cases c cell refused inside with ⟨-, h⟩ | ⟨-, -, h⟩ | ⟨-, -, h⟩
  · rw [h, hr]
  · rw [h]; rfl
  · rw [h, hi]

theorem stack_reading {refused : Config α} {inside : Cell α → Config α} (hr : refused.stack = c.stack)
    (hi : ∀ cell, (inside cell).stack = c.stack) : (c.reading cell refused inside).stack = c.stack := by
  rcases reading_cases c cell refused inside with ⟨-, h⟩ | ⟨-, -, h⟩ | ⟨-, readers, -, h⟩
  · rw [h, hr]
  · rw [h]; rfl
  · rw [h, hi]

theorem stack_reserve : (c.reserve n cell next).stack = c.stack := by
  refine stack_writing rfl fun cell => ?_
  split
  · rfl
  · dsimp only
    split
    · split <;> rfl
    · rfl

theorem stack_pop : (c.pop n cell id next).stack = c.stack := by
  refine stack_writing rfl fun cell => ?_
  split <;> rfl

theorem stack_query {answer : Registry (Stored α) → Outcome α} : (c.query n cell answer next).stack = c.stack :=
  stack_reading rfl fun _ => rfl

theorem stack_rebind {h : Handle} : (c.rebind h n x next).stack = c.stack := by
  unfold rebind
  dsimp only
  split
  · rfl
  · exact ends_letGo.stack

theorem leaves_store {h : Handle} {v : Value α (Program α)} {event : Event}
    {bind : Registry (Stored α) → SlotId → Stored α → Except Refusal (Registry (Stored α))}
    (offer : call.offer? = some (h, id, v)) (here : c.world.find? h = some n)
    (hbind : ∀ r s why, bind r id s = .error why → why = .taken id ∨ why = .unreserved id) :
    Leaves c call next (c.store n cell id v bind event x next) := by
  by_cases hin : c.thread ∈ cell.detector.inside
  · rw [store_of_inside hin]
    exact .inr ⟨_, _, .bounces offer here, rfl, rfl⟩
  by_cases hl : cell.lock = .free
  · cases hb : bind cell.registry id ⟨c.world.handed, v⟩ with
    | ok r => rw [store_of_ok hin hl hb]; exact .inl rfl
    | error why =>
      rw [store_of_error hin hl hb]
      exact .inr ⟨_, _, .refuses offer here (hbind _ _ _ hb), rfl, rfl⟩
  · rw [store_of_held hin hl]
    exact .inl rfl

theorem leaves_get {h : Handle} (here : c.world.find? h = some n) :
    Leaves c (.get h id) next (c.get n cell id next) := by
  rcases reading_cases c cell (c.refuseEntry next) _ with ⟨-, hr⟩ | ⟨-, -, hr⟩ | ⟨hin, readers, hl, -⟩
  · rw [get, hr]; exact .inl rfl
  · rw [get, hr]; exact .inl rfl
  · cases hv : cell.registry.get? id with
    | none => rw [get_of_none hin hl hv]; exact .inl rfl
    | some v => rw [get_of_some hin hl hv]; exact .inr ⟨_, _, .copies here, rfl, rfl⟩

theorem leaves_walk {h : Handle} {visit : Array (Visit α) → SlotId → Option α → Program α}
    (here : c.world.find? h = some n) : Leaves c (.walk h visit) next (c.walk n cell visit next) := by
  rcases reading_cases c cell (c.refuseEntry next) _ with ⟨-, hr⟩ | ⟨-, -, hr⟩ | ⟨hin, readers, hl, -⟩
  · rw [walk, hr]; exact .inl rfl
  · rw [walk, hr]; exact .inl rfl
  · rw [walk_of_shared hin hl]
    cases cell.registry.ids with
    | nil => exact .inl ends_endReading.stack
    | cons id ahead => exact .inr ⟨_, _, .walks here ⟨_, _, _, _, rfl⟩, rfl, rfl⟩

/-- A release runs user code only when it has removed a value: the code that destroys it. -/
theorem release_cases (c : Config α) (ticket : Ticket) (next : Outcome α → Program α) :
    (c.release ticket next).stack = c.stack ∨
    ∃ cell v, c.world.cells[ticket.cell]? = some cell ∧ cell.lock = .free ∧
      cell.registry.slot? ticket.id = some (.occupied v) ∧
      (c.release ticket next).world.cells =
        c.world.cells.set ticket.cell (cell.withRegistry (cell.registry.remove ticket.id)).addOwner ∧
      (c.release ticket next).stack = .call (.discarding ticket.cell) next :: c.stack ∧
      (c.release ticket next).control = .running v.value.onDestroy := by
  cases hc : c.world.cells[ticket.cell]? with
  | none => rw [release_of_missing hc]; exact .inl rfl
  | some cell =>
    by_cases ho : cell.owners = 0
    · rw [release_of_dead hc ho]; exact .inl rfl
    by_cases hin : c.thread ∈ cell.detector.inside
    · rw [release_of_inside hc ho hin]; exact .inl rfl
    by_cases hl : cell.lock = .free
    · by_cases hs : ∃ v, cell.registry.slot? ticket.id = some (.occupied v)
      · obtain ⟨v, hs⟩ := hs
        rw [release_of_occupied hc ho hin hl hs]
        exact .inr ⟨cell, v, rfl, hl, hs, congrArg (List.set · ticket.cell _) cells_emit, rfl, rfl⟩
      · rw [release_of_not_occupied hc ho hin hl (fun v hv => hs ⟨v, hv⟩)]
        exact .inl rfl
    · rw [release_of_held hc ho hin hl]; exact .inl rfl

theorem leaves_release {ticket : Ticket} : Leaves c (.release ticket) next (c.release ticket next) := by
  rcases release_cases c ticket next with h | ⟨cell, v, -, -, -, -, hstack, hruns⟩
  · exact .inl h
  · exact .inr ⟨_, _, .discards, hstack, hruns⟩

theorem leaves_dispose {serial : Nat} : Leaves c (.dispose serial) next (c.dispose serial next) := by
  unfold dispose
  split
  · exact .inl rfl
  · exact .inr ⟨_, _, .disposes, rfl, rfl⟩

theorem leaves_withCell {h : Handle} {act : CellId → Cell α → Config α}
    (hact : ∀ n cell, c.world.find? h = some n → Leaves c call next (act n cell)) :
    Leaves c call next (c.withCell h next act) := by
  unfold withCell
  split
  · exact .inl rfl
  · rename_i n cell hw
    exact hact n cell (cellOf?_eq_some hw).1

/-- **A call leaves one scope at most**, when it comes to user code. -/
theorem leaves_perform (next : Outcome α → Program α) (call : Call α (Program α)) :
    Leaves c call next (c.perform next call) := by
  cases call with
  | create h => exact .inl stack_rebind
  | share source target => exact leaves_withCell fun _ _ _ => .inl stack_rebind
  | hold h => exact leaves_withCell fun _ _ _ => .inl stack_rebind
  | giveUp h => exact leaves_withCell fun _ _ _ => .inl ends_letGo.stack
  | inspect h => exact leaves_withCell fun _ _ _ => .inl rfl
  | reserve h => exact leaves_withCell fun _ _ _ => .inl stack_reserve
  | add h id v =>
    exact leaves_withCell fun _ _ here => leaves_store rfl here fun _ _ _ hr => .inl (Registry.insert_eq_error hr)
  | set h id v =>
    exact leaves_withCell fun _ _ here => leaves_store rfl here fun _ _ _ => Registry.fill_eq_error
  | pop h id => exact leaves_withCell fun _ _ _ => .inl stack_pop
  | get h id => exact leaves_withCell fun _ _ here => leaves_get here
  | contains h id => exact leaves_withCell fun _ _ _ => .inl stack_query
  | size h => exact leaves_withCell fun _ _ _ => .inl stack_query
  | isEmpty h => exact leaves_withCell fun _ _ _ => .inl stack_query
  | cursor h => exact leaves_withCell fun _ _ _ => .inl stack_query
  | walk h visit => exact leaves_withCell fun _ _ here => leaves_walk here
  | release ticket => exact leaves_release
  | dispose serial => exact leaves_dispose
  | shelve ticket => exact .inl rfl
  | shelved number => exact .inl rfl
  | unshelve number => exact .inl rfl

/-! ### What stands on the stack after a step -/

/-- When user code ends, only a walk leaves a scope again: that of its next visit. -/
theorem stack_resume {v : Verdict} {report : Option (List (Answer α))} :
    (c.resume s next v report).stack = c.stack ∨
    ∃ n visit s', s.IsVisit n visit ∧ s'.IsVisit n visit ∧
      (c.resume s next v report).stack = .call s' next :: c.stack := by
  cases s with
  | walking n visit visits id value ahead =>
    cases v with
    | goOn =>
      cases ahead with
      | nil => exact .inl ends_endReading.stack
      | cons id' ahead' => exact .inr ⟨n, visit, _, ⟨_, _, _, _, rfl⟩, ⟨_, _, _, _, rfl⟩, rfl⟩
    | stop => exact .inl ends_endReading.stack
    | raise message => exact .inl ends_endReading.stack
  | copying n payload => cases v <;> exact .inl ends_endReading.stack
  | rejecting n why => cases v <;> exact .inl ends_endWriting.stack
  | bouncing n =>
    cases v with
    | goOn => exact .inl ends_letGo.stack
    | stop => exact .inl ends_letGo.stack
    | raise message => exact .inl rfl
  | discarding n => cases v <;> exact .inl ends_letGo.stack
  | tearing n ahead x =>
    cases v with
    | goOn => cases x <;> exact .inl rfl
    | stop => cases x <;> exact .inl rfl
    | raise message => cases x <;> exact .inl rfl
  | disposing => cases v <;> exact .inl rfl

theorem stack_tearOn (c : Config α) (ahead : List SlotId) : (c.tearOn n ahead x next).stack = c.stack ∨
    ∃ ahead', (c.tearOn n ahead x next).stack = .call (.tearing n ahead' x) next :: c.stack := by
  unfold tearOn
  split
  · dsimp only
    split
    · exact .inr ⟨_, rfl⟩
    · exact .inl rfl
  · exact .inl rfl

/-- The stack that the next step builds on: code that has ended takes its frame along. -/
def base (c : Config α) : List (Frame α) :=
  match c.control with
  | .running (.finish _ _) => c.stack.tail
  | _ => c.stack

theorem base_suffix : c.base <:+ c.stack := by
  unfold base
  split
  · exact List.tail_suffix _
  · exact List.suffix_refl _

theorem ne_of_suffix {f : Frame α} {stack : List (Frame α)} (hf : f :: rest <:+ stack) : stack ≠ rest := by
  rintro rfl
  exact Nat.not_succ_le_self _ hf.length_le

/-- **Where a scope on the stack comes from.**  After a step it stands where it stood, a call has just come to it, it is
the next visit of a walk, or the clearing of a cell has come to a value. -/
theorem frame_cases (hf : .call s next :: rest <:+ c.step.stack) :
    .call s next :: rest <:+ c.base ∨
    (∃ call p, c.control = .running (.call call next) ∧ c.stack = rest ∧ Opens c.world call s p ∧
      c.step.control = .running p) ∨
    (∃ m visit s', s.IsVisit m visit ∧ s'.IsVisit m visit ∧ .call s' next :: rest <:+ c.stack) ∨
    ∃ m ahead ahead' x, c.control = .tearing m ahead x next ∧ c.stack = rest ∧ s = .tearing m ahead' x := by
  cases hc : c.control with
  | running p =>
    cases p with
    | finish v report =>
      rw [show c.base = c.stack.tail by rw [base, hc]]
      cases hs : c.stack with
      | nil =>
        rw [show c.step = c by rw [step, hc]; simp only [hs], hs] at hf
        exact .inl hf
      | cons f stack =>
        cases f with
        | call s' next' =>
          rw [step_of_finish hc hs] at hf
          rcases stack_resume (c := { c with stack := stack }) with hsame | ⟨m, visit, t, hbefore, hafter, hpush⟩
          · rw [hsame] at hf
            exact .inl hf
          · rw [hpush] at hf
            rcases List.suffix_cons_iff.1 hf with heq | hf
            · obtain ⟨hframe, rfl⟩ := List.cons.inj heq
              cases hframe
              exact .inr (.inr (.inl ⟨m, visit, s', hafter, hbefore, List.suffix_refl _⟩))
            · exact .inl hf
        | join u goOn =>
          rw [show c.step.stack = stack by rw [step, hc]; simp only [hs]] at hf
          exact .inl hf
    | call call next' =>
      rw [show c.base = c.stack by rw [base, hc]]
      have hleaves := leaves_perform (c := c) next' call
      rw [← step_of_call hc] at hleaves
      rcases hleaves with hsame | ⟨s', p, hopens, hpush, hruns⟩
      · rw [hsame] at hf
        exact .inl hf
      · rw [hpush] at hf
        rcases List.suffix_cons_iff.1 hf with heq | hf
        · obtain ⟨hframe, rfl⟩ := List.cons.inj heq
          cases hframe
          exact .inr (.inl ⟨call, p, rfl, rfl, hopens, hruns⟩)
        · exact .inl hf
    | note m p =>
      rw [show c.base = c.stack by rw [base, hc]]
      rw [step, hc] at hf
      exact .inl hf
    | onThread body goOn =>
      rw [show c.base = c.stack by rw [base, hc]]
      rw [step, hc] at hf
      rcases List.suffix_cons_iff.1 hf with heq | hf
      · cases heq
      · exact .inl hf
  | replying x nx =>
    rw [show c.base = c.stack by rw [base, hc]]
    rw [step, hc] at hf
    exact .inl hf
  | tearing m ahead x nx =>
    rw [show c.base = c.stack by rw [base, hc]]
    rw [show c.step = c.tearOn m ahead x nx by rw [step, hc]] at hf
    rcases stack_tearOn c ahead with hsame | ⟨ahead', hpush⟩
    · rw [hsame] at hf
      exact .inl hf
    · rw [hpush] at hf
      rcases List.suffix_cons_iff.1 hf with heq | hf
      · obtain ⟨hframe, rfl⟩ := List.cons.inj heq
        cases hframe
        exact .inr (.inr (.inr ⟨m, ahead, ahead', x, rfl, rfl, rfl⟩))
      · exact .inl hf
  | blocked =>
    rw [show c.base = c.stack by rw [base, hc]]
    rw [step, hc] at hf
    exact .inl hf
  | aborted =>
    rw [show c.base = c.stack by rw [base, hc]]
    rw [step, hc] at hf
    exact .inl hf

/-- A scope inside a cell stands where it stood, a call has just come to it, or it is the next visit of a walk. -/
theorem frame_step (hf : .call s next :: rest <:+ c.step.stack) (hin : s.IsInside n) :
    .call s next :: rest <:+ c.stack ∨
    (∃ call p, c.control = .running (.call call next) ∧ c.stack = rest ∧ Opens c.world call s p ∧
      c.step.control = .running p) ∨
    ∃ visit s', s.IsVisit n visit ∧ s'.IsVisit n visit ∧ .call s' next :: rest <:+ c.stack := by
  rcases frame_cases hf with hbase | hopens | ⟨m, visit, s', hvisit, hvisit', hs⟩ | ⟨m, ahead, ahead', x, -, -, rfl⟩
  · exact .inl (hbase.trans base_suffix)
  · exact .inr (.inl hopens)
  · -- the visit is inside one cell only
    obtain ⟨_, _, _, _, rfl⟩ := hvisit
    cases hin
    exact .inr (.inr ⟨visit, s', ⟨_, _, _, _, rfl⟩, hvisit', hs⟩)
  · exact hin.elim

/-! ### The call around -/

/-- In the run from `o`, the call that `c₀` makes is not over at `c`, and has come to the scope `s`. -/
structure Encloses (o : Config α) (call : Call α (Program α)) (next : Outcome α → Program α) (s : Scope α)
    (c₀ c : Config α) : Prop where
  reaches : Reaches o c₀
  control : c₀.control = .running (.call call next)
  extent : c₀.Extent c
  stands : .call s next :: c₀.stack <:+ c.stack

/-- A call that is not over is not over after a step that leaves one of its scopes on the stack. -/
theorem Encloses.step {s' : Scope α} (h : Encloses o call next s c₀ c)
    (hf : .call s' next :: c₀.stack <:+ c.step.stack) : Encloses o call next s' c₀ c.step :=
  ⟨h.reaches, h.control, .going h.extent fun hreturned => ne_of_suffix h.stands hreturned.1, hf⟩

/-- **A scope inside a cell stands for a call of the run** that was made on the stack below and is not over. -/
theorem exists_encloses (h : Reaches o c) (ho : o.stack = []) : ∀ {s : Scope α} {next : Outcome α → Program α}
    {rest : List (Frame α)}, .call s next :: rest <:+ c.stack → s.IsInside n →
      ∃ c₀ call p, c₀.stack = rest ∧ Encloses o call next s c₀ c ∧ Opens c₀.world call s p ∧
        c₀.step.control = .running p := by
  induction h with
  | refl =>
    intro s next rest hf
    rw [ho] at hf
    cases List.suffix_nil.1 hf
  | tail h ih =>
    intro s next rest hf hin
    rcases frame_step hf hin with
      hbefore | ⟨call, p, hc, rfl, hopens, hruns⟩ | ⟨visit, s', hvisit, hvisit', hbefore⟩
    · obtain ⟨c₀, call, p, rfl, hencloses, hopens, hruns⟩ := ih hbefore hin
      exact ⟨c₀, call, p, rfl, hencloses.step hf, hopens, hruns⟩
    · exact ⟨_, call, p, rfl, ⟨h, hc, .begun, hf⟩, hopens, hruns⟩
    · obtain ⟨c₀, call, p, rfl, hencloses, hopens, hruns⟩ := ih hbefore hvisit'.isInside
      refine ⟨c₀, call, p, rfl, hencloses.step hf, ?_, hruns⟩
      obtain ⟨_, _, _, _, rfl⟩ := hvisit'
      cases hopens with
      | walks here hwalking =>
        obtain ⟨_, _, _, _, heq⟩ := hwalking
        cases heq
        exact .walks here hvisit

/-- **While a call is inside a cell the registry stays** as it was when the call was made. -/
theorem Encloses.hasRegistry {r : Registry (Stored α)} (h : Encloses o call next s c₀ c)
    (ho : Sound Eq (fun _ => []) o.ledger) (hin : s.IsInside n) (hentered : call.entered? c₀.world = some n)
    (hticket : call.ticket? = none) (hr : HasRegistry n r c₀) : HasRegistry n r c := by
  have hsound := h.reaches.sound tracks_eq ho
  have hkeeps : ¬ c₀.discards := by
    rintro ⟨m, nx, hstack⟩
    have hbegins := begins_perform (c := c₀) next call
    rw [← step_of_call h.control] at hbegins
    obtain ⟨ticket, -, -, hsome, -⟩ := hbegins.removed hstack
    rw [hticket] at hsome
    cases hsome
  cases h.extent.intact hsound h.control hentered hkeeps hr with
  | dead hdead =>
    -- the call inside owns the cell
    obtain ⟨cell', found', -, hpos⟩ :=
      locked_of_inside tracks_eq (h.extent.reaches.sound tracks_eq hsound) (h.stands.mem List.mem_cons_self) hin
    obtain ⟨other, hother, hzero⟩ := hdead
    rw [show c.ledger.cells[n]? = some cell' from found'] at hother
    cases hother
    exact absurd hzero hpos
  | ended thread stack => exact absurd stack (ne_of_suffix h.stands)
  | within s' next' above guards kept => exact kept

end Config

end SlotRegistry
