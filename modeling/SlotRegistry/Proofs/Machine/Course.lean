import SlotRegistry.Proofs.Machine.Reentry
/-!
# Course — how a call begins and how it goes on

A call that begins is over at once, or leaves one scope on the stack.  Either way no registry changes, but for a call
that wrote one under a lock that was free (`begins_perform`).  When user code ends, the call goes on in the same way
and writes nothing (`goes_resume`).
-/
namespace SlotRegistry

variable {α : Type}

/-- A call came to nothing: it was refused, or it broke off. -/
def Outcome.failed : Outcome α → Bool
  | refused _ | raised _ _ => true
  | _ => false

/-- What a release frees. -/
def Call.ticket? : Call α (Program α) → Option Ticket
  | release ticket => some ticket
  | _ => none

namespace Config

variable {c d e : Config α} {cell cell' : Cell α} {n m : CellId} {id : SlotId} {x : Outcome α}
  {next : Outcome α → Program α} {o : Option CellId}

/-- The registry of a cell is the same in two configurations. -/
def Spares (n : CellId) (c d : Config α) : Prop :=
  ∀ cell, c.world.cells[n]? = some cell → ∃ cell', d.world.cells[n]? = some cell' ∧ cell'.registry = cell.registry

theorem Spares.trans (h : Spares n c d) (h' : Spares n d e) : Spares n c e := by
  intro cell hc
  obtain ⟨cell', hd, hr⟩ := h cell hc
  obtain ⟨cell'', he, hr'⟩ := h' cell' hd
  exact ⟨cell'', he, hr'.trans hr⟩

theorem spares_of_cells (h : d.world.cells = c.world.cells) : Spares n c d :=
  fun cell hc => ⟨cell, by rw [h]; exact hc, rfl⟩

theorem spares_set_of_ne (h : d.world.cells = c.world.cells.set m cell') (hnm : m ≠ n) : Spares n c d :=
  fun cell hc => ⟨cell, by rw [h, List.getElem?_set_ne hnm]; exact hc, rfl⟩

theorem spares_set {k : Cell α} (h : d.world.cells = c.world.cells.set m k) (hc : c.world.cells[m]? = some cell)
    (hr : k.registry = cell.registry) : Spares n c d := by
  by_cases hnm : m = n
  · subst hnm
    intro former hf
    rw [hc] at hf
    cases hf
    exact ⟨k, by rw [h]; exact List.getElem?_set_self (List.getElem?_eq_some_iff.1 hc).1, hr⟩
  · exact spares_set_of_ne h hnm

theorem cells_emit {e : Event} {lock : Lock} : (c.emit e n lock).world.cells = c.world.cells := by
  unfold emit World.emit
  split <;> rfl

/-! ### A call that is over -/

/-- A call is over, waits for ever, or is about to clear the cell `m`; the stack is as it was. -/
structure Ends (m : CellId) (c d : Config α) : Prop where
  thread : d.thread = c.thread
  stack : d.stack = c.stack
  idle : ∀ p, d.control ≠ .running p
  torn : ∀ n, d.control.torn = some n → m = n
  spares : ∀ n, Spares n c d

theorem ends_reply : Ends m c (c.reply x next) :=
  ⟨rfl, rfl, nofun, nofun, fun _ => spares_of_cells rfl⟩

theorem ends_refuseEntry : Ends m c (c.refuseEntry next) := ends_reply

theorem ends_block : Ends m c c.block :=
  ⟨rfl, rfl, nofun, nofun, fun _ => spares_of_cells rfl⟩

theorem ends_abort : Ends m c c.abort :=
  ⟨rfl, rfl, nofun, nofun, fun _ => spares_of_cells rfl⟩

theorem Ends.of_put (h : Ends m (c.put n cell') d) (hc : c.world.cells[n]? = some cell)
    (hr : cell'.registry = cell.registry) : Ends m c d :=
  ⟨h.thread, h.stack, h.idle, h.torn, fun k => (spares_set rfl hc hr).trans (h.spares k)⟩

theorem ends_letGo : Ends n c (c.letGo n x next) := by
  unfold letGo
  split
  · exact ends_reply
  · rename_i cell hc
    split
    · exact ⟨rfl, rfl, nofun, fun _ h => (by cases h; rfl), fun _ => spares_set rfl hc rfl⟩
    · exact ends_reply.of_put (m := n) hc rfl

theorem ends_endReading : Ends n c (c.endReading n x next) := by
  unfold endReading
  split
  · exact ends_reply
  · rename_i cell hc
    exact ends_letGo.of_put hc rfl

theorem ends_endWriting : Ends n c (c.endWriting n x next) := by
  unfold endWriting
  split
  · exact ends_reply
  · rename_i cell hc
    exact ends_letGo.of_put hc rfl

/-! ### Going on -/

/-- A call on the cell `entered` goes on: it is over, or user code runs inside it. -/
inductive Goes (c : Config α) (entered : Option CellId) (next : Outcome α → Program α) (d : Config α) : Prop
  | ends (m : CellId) (h : Ends m c d) (here : ∀ n, entered = some n → m = n)
  | enters (s : Scope α) (kept : ∀ m, s ≠ .discarding m) (thread : d.thread = c.thread)
      (stack : d.stack = .call s next :: c.stack) (spares : ∀ n, Spares n c d)
      (here : ∀ n, entered = some n → s.IsInside n)

theorem Ends.goes (h : Ends n c d) : Goes c (some n) next d := .ends n h (fun m hm => (by cases hm; rfl))

theorem Ends.goes_nowhere (h : Ends n c d) : Goes c none next d := .ends n h nofun

theorem Goes.of_spares {w : World α} (h : Goes { c with world := w } o next d)
    (hw : ∀ n, Spares n c { c with world := w }) : Goes c o next d := by
  cases h with
  | ends m h here =>
    exact .ends m ⟨h.thread, h.stack, h.idle, h.torn, fun k => (hw k).trans (h.spares k)⟩ here
  | enters s kept thread stack spares here =>
    exact .enters s kept thread stack (fun k => (hw k).trans (spares k)) here

theorem goes_walkOn {visit : Array (Visit α) → SlotId → Option α → Program α} {visits : Array (Visit α)}
    {ahead : List SlotId} : Goes c (some n) next (c.walkOn n visit visits ahead next) := by
  unfold walkOn
  split
  · exact ends_endReading.goes
  · refine .enters _ ?_ rfl rfl (fun _ => spares_of_cells rfl) (fun m hm => (by cases hm; rfl))
    exact fun m h => (by cases h)

/-- **When user code ends, its call goes on and writes no registry.** -/
theorem goes_resume {s : Scope α} {v : Verdict} {report : Option (List (Answer α))} :
    Goes c (s.stake.map Prod.fst) next (c.resume s next v report) := by
  cases s with
  | walking n visit visits id value ahead =>
    cases v with
    | goOn => exact goes_walkOn
    | stop => exact ends_endReading.goes
    | raise message => exact ends_endReading.goes
  | copying n payload => cases v <;> exact ends_endReading.goes
  | rejecting n why => cases v <;> exact ends_endWriting.goes
  | bouncing n =>
    cases v with
    | goOn => exact ends_letGo.goes
    | stop => exact ends_letGo.goes
    | raise message => exact ends_abort.goes
  | discarding n => cases v <;> exact ends_letGo.goes
  | tearing n ahead x =>
    have hgo : Ends n c { c with control := .tearing n ahead x next } :=
      ⟨rfl, rfl, nofun, fun _ h => (by cases h; rfl), fun _ => spares_of_cells rfl⟩
    cases v with
    | goOn => cases x <;> exact hgo.goes_nowhere
    | stop => cases x <;> exact hgo.goes_nowhere
    | raise message =>
      cases x with
      | raised _ _ => exact (ends_abort (m := n)).goes_nowhere
      | _ => exact (ends_reply (m := n)).goes_nowhere
  | disposing => cases v <;> exact (ends_reply (m := 0)).goes_nowhere

/-! ### Beginning -/

/-- A call that enters the cell `entered` begins; `ticket` is what it releases, if it is a release. -/
inductive Begins (c : Config α) (entered : Option CellId) (ticket : Option Ticket) (next : Outcome α → Program α)
    (d : Config α) : Prop
  | goes (h : Goes c entered next d)
  /-- It is turned away, and the value it was to store is destroyed. -/
  | bounces (n : CellId) (cell : Cell α) (here : entered = some n) (found : c.world.cells[n]? = some cell)
      (inside : c.thread ∈ cell.detector.inside) (thread : d.thread = c.thread)
      (stack : d.stack = .call (.bouncing n) next :: c.stack) (spares : ∀ n, Spares n c d)
  /-- It has written a registry, and is over. -/
  | writes (m : CellId) (cell : Cell α) (x : Outcome α) (found : c.world.cells[m]? = some cell)
      (free : cell.lock = .free) (thread : d.thread = c.thread) (stack : d.stack = c.stack)
      (control : d.control = .replying x next) (ok : x.failed = false) (spares : ∀ n, m ≠ n → Spares n c d)
  /-- A release has removed a value, which is destroyed. -/
  | removes (r : Ticket) (cell : Cell α) (v : Stored α) (here : ticket = some r)
      (found : c.world.cells[r.cell]? = some cell) (free : cell.lock = .free)
      (slot : cell.registry.slot? r.id = some (.occupied v)) (thread : d.thread = c.thread)
      (stack : d.stack = .call (.discarding r.cell) next :: c.stack)
      (cells : d.world.cells = c.world.cells.set r.cell (cell.withRegistry (cell.registry.remove r.id)).addOwner)

theorem Ends.begins {ticket : Option Ticket} (h : Ends n c d) : Begins c (some n) ticket next d := .goes h.goes

theorem Ends.of_emit {e : Event} {lock : Lock} (h : Ends m (c.emit e n lock) d) : Ends m c d :=
  ⟨h.thread, h.stack, h.idle, h.torn, fun k => (spares_of_cells cells_emit).trans (h.spares k)⟩

theorem spares_written {e : Event} {lock : Lock} (h : d.world.cells = ((c.emit e n lock).put n cell').world.cells)
    (k : CellId) (hk : n ≠ k) : Spares k c d :=
  spares_set_of_ne (h.trans (congrArg (List.set · n cell') cells_emit)) hk

theorem begins_reserve (hc : c.world.cells[n]? = some cell) : Begins c (some n) none next (c.reserve n cell next) := by
  by_cases hin : c.thread ∈ cell.detector.inside
  · rw [reserve, writing_of_inside hin]; exact ends_refuseEntry.begins
  by_cases hl : cell.lock = .free
  · cases hr : cell.registry.reserve with
    | ok p =>
      rw [reserve_of_ok hin hl hr]
      exact .writes n cell _ hc hl rfl rfl rfl rfl (spares_written rfl)
    | error why =>
      rw [reserve_of_error hin hl hr]
      exact (ends_reply.of_put (by rw [cells_emit]; exact hc) rfl).of_emit.begins
  · rw [reserve, writing_of_held hin hl]; exact ends_block.begins

theorem begins_store {v : Value α (Program α)}
    {bind : Registry (Stored α) → SlotId → Stored α → Except Refusal (Registry (Stored α))} {event : Event}
    (hc : c.world.cells[n]? = some cell) (hx : x.failed = false) :
    Begins c (some n) none next (c.store n cell id v bind event x next) := by
  by_cases hin : c.thread ∈ cell.detector.inside
  · rw [store_of_inside hin]
    exact .bounces n cell rfl hc hin rfl rfl (fun _ => spares_set (k := cell.addOwner) rfl hc rfl)
  by_cases hl : cell.lock = .free
  · cases hr : bind cell.registry id ⟨c.world.handed, v⟩ with
    | ok r =>
      rw [store_of_ok hin hl hr]
      exact .writes n cell x hc hl rfl rfl rfl hx
        (spares_written (c := { c with world := (c.world.handOver v n id).2 }) rfl)
    | error why =>
      rw [store_of_error hin hl hr]
      exact .goes (.enters (.rejecting n why) nofun rfl rfl
        (fun _ => spares_set (k := (cell.heldForWriting c.thread).addOwner) rfl hc rfl)
        fun m hm => by cases hm; rfl)
  · rw [store_of_held hin hl]
    exact (Ends.begins ⟨rfl, rfl, nofun, nofun, fun _ => spares_of_cells rfl⟩)

theorem begins_pop (hc : c.world.cells[n]? = some cell) : Begins c (some n) none next (c.pop n cell id next) := by
  by_cases hin : c.thread ∈ cell.detector.inside
  · rw [pop, writing_of_inside hin]; exact ends_refuseEntry.begins
  by_cases hl : cell.lock = .free
  · cases hr : cell.registry.take id with
    | ok p =>
      rw [pop_of_ok hin hl hr]
      exact .writes n cell _ hc hl rfl rfl rfl rfl (spares_written rfl)
    | error why =>
      rw [pop_of_error hin hl hr]
      exact (ends_reply.of_put hc rfl).begins
  · rw [pop, writing_of_held hin hl]; exact ends_block.begins

theorem begins_query {answer : Registry (Stored α) → Outcome α} (hc : c.world.cells[n]? = some cell) :
    Begins c (some n) none next (c.query n cell answer next) := by
  rcases reading_cases c cell (c.refuseEntry next) _ with ⟨-, h⟩ | ⟨-, -, h⟩ | ⟨hin, readers, hl, -⟩
  · rw [query, h]; exact ends_refuseEntry.begins
  · rw [query, h]; exact ends_block.begins
  · rw [query_of_shared hin hl]; exact (ends_reply.of_put hc rfl).begins

theorem begins_get (hc : c.world.cells[n]? = some cell) : Begins c (some n) none next (c.get n cell id next) := by
  rcases reading_cases c cell (c.refuseEntry next) _ with ⟨-, h⟩ | ⟨-, -, h⟩ | ⟨hin, readers, hl, -⟩
  · rw [get, h]; exact ends_refuseEntry.begins
  · rw [get, h]; exact ends_block.begins
  · cases hr : cell.registry.get? id with
    | none => rw [get_of_none hin hl hr]; exact (ends_reply.of_put hc rfl).begins
    | some v =>
      rw [get_of_some hin hl hr]
      exact .goes (.enters (.copying n v.value.payload) (fun _ h => by cases h) rfl rfl
        (fun _ => spares_set (k := (cell.heldForReading c.thread readers).addOwner) rfl hc rfl)
        fun m hm => by cases hm; rfl)

theorem begins_walk {visit : Array (Visit α) → SlotId → Option α → Program α} (hc : c.world.cells[n]? = some cell) :
    Begins c (some n) none next (c.walk n cell visit next) := by
  rcases reading_cases c cell (c.refuseEntry next) _ with ⟨-, h⟩ | ⟨-, -, h⟩ | ⟨hin, readers, hl, -⟩
  · rw [walk, h]; exact ends_refuseEntry.begins
  · rw [walk, h]; exact ends_block.begins
  · rw [walk_of_shared hin hl]
    exact .goes (Goes.of_spares goes_walkOn
      (fun _ => spares_set (k := (cell.heldForReading c.thread readers).addOwner) rfl hc rfl))

theorem begins_release {ticket : Ticket} :
    Begins c (c.world.living? ticket) (some ticket) next (c.release ticket next) := by
  unfold World.living?
  cases hc : c.world.cells[ticket.cell]? with
  | none => rw [release_of_missing hc]; exact .goes (ends_reply (m := 0)).goes_nowhere
  | some cell =>
    by_cases ho : cell.owners = 0
    · rw [release_of_dead hc ho, Option.bind_some, if_pos ho]; exact .goes (ends_reply (m := 0)).goes_nowhere
    rw [Option.bind_some, if_neg ho]
    by_cases hin : c.thread ∈ cell.detector.inside
    · rw [release_of_inside hc ho hin]; exact ends_refuseEntry.begins
    by_cases hl : cell.lock = .free
    · by_cases hs : ∃ v, cell.registry.slot? ticket.id = some (.occupied v)
      · obtain ⟨v, hs⟩ := hs
        rw [release_of_occupied hc ho hin hl hs]
        exact .removes ticket cell v rfl hc hl hs rfl rfl (congrArg (List.set · ticket.cell _) cells_emit)
      · rw [release_of_not_occupied hc ho hin hl (fun v hv => hs ⟨v, hv⟩)]
        exact .writes ticket.cell cell _ hc hl rfl rfl rfl rfl (spares_written rfl)
    · rw [release_of_held hc ho hin hl]; exact ends_block.begins

theorem goes_rebind {h : Handle} : Goes c none next (c.rebind h n x next) := by
  refine Goes.of_spares (w := c.world.bind h n) ?_ (fun _ => spares_of_cells rfl)
  unfold rebind
  dsimp only
  split
  · exact (ends_reply (m := 0)).goes_nowhere
  · exact ends_letGo.goes_nowhere

theorem goes_create {h : Handle} : Goes c none next (c.create h next) := by
  refine Goes.of_spares (w := c.world.create.2) goes_rebind (fun n cell hc => ⟨cell, ?_, rfl⟩)
  exact (List.getElem?_append_left (List.getElem?_eq_some_iff.1 hc).1).trans hc

theorem goes_dispose {serial : Nat} : Goes c none next (c.dispose serial next) := by
  unfold dispose
  split
  · exact (ends_reply (m := 0)).goes_nowhere
  · exact .enters .disposing nofun rfl rfl (fun _ => spares_of_cells rfl) nofun

theorem begins_withCell {h : Handle} {act : CellId → Cell α → Config α}
    (hact : ∀ n cell, c.world.cells[n]? = some cell → Begins c (some n) none next (act n cell)) :
    Begins c ((c.world.cellOf? h).map Prod.fst) none next (c.withCell h next act) := by
  unfold withCell
  split
  · rename_i hw
    rw [hw]
    exact .goes (ends_reply (m := 0)).goes_nowhere
  · rename_i n cell hw
    rw [hw]
    exact hact n cell (cellOf?_eq_some hw).2

theorem goes_withCell {h : Handle} {act : CellId → Cell α → Config α}
    (hact : ∀ n cell, c.world.cells[n]? = some cell → Goes c none next (act n cell)) :
    Goes c none next (c.withCell h next act) := by
  unfold withCell
  split
  · exact (ends_reply (m := 0)).goes_nowhere
  · rename_i n cell hw
    exact hact n cell (cellOf?_eq_some hw).2

/-- **Every call begins in one of these ways.** -/
theorem begins_perform (next : Outcome α → Program α) (call : Call α (Program α)) :
    Begins c (call.entered? c.world) call.ticket? next (c.perform next call) := by
  cases call with
  | create h => exact .goes goes_create
  | share source target =>
    exact .goes (goes_withCell fun n cell hc =>
      goes_rebind.of_spares (fun _ => spares_set (k := cell.addOwner) rfl hc rfl))
  | hold h =>
    exact .goes (goes_withCell fun n cell hc =>
      goes_rebind.of_spares (fun _ => spares_set (k := cell.addOwner) rfl hc rfl))
  | giveUp h =>
    exact .goes (goes_withCell fun n cell _ => Goes.of_spares (w := c.world.unbind h) ends_letGo.goes_nowhere
      (fun _ => spares_of_cells rfl))
  | inspect h => exact .goes (goes_withCell fun n cell _ => (ends_reply (m := 0)).goes_nowhere)
  | reserve h => exact begins_withCell fun n cell hc => begins_reserve hc
  | add h id v => exact begins_withCell fun n cell hc => begins_store hc rfl
  | set h id v => exact begins_withCell fun n cell hc => begins_store hc rfl
  | pop h id => exact begins_withCell fun n cell hc => begins_pop hc
  | get h id => exact begins_withCell fun n cell hc => begins_get hc
  | contains h id => exact begins_withCell fun n cell hc => begins_query hc
  | size h => exact begins_withCell fun n cell hc => begins_query hc
  | isEmpty h => exact begins_withCell fun n cell hc => begins_query hc
  | cursor h => exact begins_withCell fun n cell hc => begins_query hc
  | walk h visit => exact begins_withCell fun n cell hc => begins_walk hc
  | release ticket => exact begins_release
  | dispose serial => exact .goes goes_dispose
  | shelve ticket =>
    exact .goes (Goes.of_spares (w := (c.world.shelve ticket).2) (ends_reply (m := 0)).goes_nowhere
      (fun _ => spares_of_cells rfl))
  | shelved number => exact .goes (ends_reply (m := 0)).goes_nowhere
  | unshelve number =>
    exact .goes (Goes.of_spares (w := c.world.unshelve number) (ends_reply (m := 0)).goes_nowhere
      (fun _ => spares_of_cells rfl))

/-! ### What a step does to the stack and to a cell that is locked -/

/-- User code does not run, or runs in one more call. -/
def Grows (c d : Config α) : Prop :=
  d.thread = c.thread ∧
    ((d.stack = c.stack ∧ ∀ p, d.control ≠ .running p) ∨ ∃ s next, d.stack = .call s next :: c.stack)

theorem Goes.grows (h : Goes c o next d) : Grows c d := by
  cases h with
  | ends m h here => exact ⟨h.thread, .inl ⟨h.stack, h.idle⟩⟩
  | enters s kept thread stack spares here => exact ⟨thread, .inr ⟨s, next, stack⟩⟩

theorem Begins.grows {ticket : Option Ticket} (h : Begins c o ticket next d) : Grows c d := by
  cases h with
  | goes h => exact h.grows
  | bounces n cell here found inside thread stack => exact ⟨thread, .inr ⟨_, next, stack⟩⟩
  | writes m cell x found free thread stack control =>
    exact ⟨thread, .inl ⟨stack, fun p hp => by rw [control] at hp; cases hp⟩⟩
  | removes r cell v here found free slot thread stack => exact ⟨thread, .inr ⟨_, next, stack⟩⟩

theorem grows_tearOn {ahead : List SlotId} : Grows c (c.tearOn n ahead x next) := by
  unfold tearOn
  split
  · dsimp only
    split
    · exact ⟨rfl, .inr ⟨_, next, rfl⟩⟩
    · exact ⟨rfl, .inl ⟨rfl, nofun⟩⟩
  · exact ⟨rfl, .inl ⟨rfl, nofun⟩⟩

theorem Goes.spares (h : Goes c o next d) : Spares n c d := by
  cases h with
  | ends m h here => exact h.spares n
  | enters s kept thread stack spares here => exact spares n

theorem Begins.spares {ticket : Option Ticket} (h : Begins c o ticket next d)
    (locked : ∀ cell, c.world.cells[n]? = some cell → cell.lock ≠ .free) :
    Spares n c d := by
  cases h with
  | goes h => exact h.spares
  | bounces m cell here found inside thread stack spares => exact spares n
  | writes m cell x found free thread stack control ok spares =>
    exact spares n (fun hm => locked cell (hm ▸ found) free)
  | removes r cell v here found free slot thread stack cells =>
    exact spares_set_of_ne cells (fun hm => locked cell (hm ▸ found) free)

theorem spares_tearOn {ahead : List SlotId} (hm : m ≠ n) : Spares n c (c.tearOn m ahead x next) := by
  unfold tearOn
  split
  · dsimp only
    split
    · exact spares_set_of_ne rfl hm
    · exact spares_set_of_ne rfl hm
  · exact spares_of_cells rfl

/-- **A step keeps the registry of a cell that is locked and not being cleared.** -/
theorem spares_step (locked : ∀ cell, c.world.cells[n]? = some cell → cell.lock ≠ .free)
    (torn : c.control.torn ≠ some n) : Spares n c c.step := by
  unfold step
  split
  · exact (begins_perform _ _).spares locked
  · exact spares_of_cells rfl
  · exact spares_of_cells rfl
  · split
    · exact spares_of_cells rfl
    · rename_i s next stack hstack
      exact (goes_resume (c := { c with stack := stack })).spares
    · exact spares_of_cells rfl
  · exact spares_of_cells rfl
  · rename_i m ahead x next hc
    exact spares_tearOn (fun hm => torn (by rw [hc, hm]; rfl))
  · exact spares_of_cells rfl
  · exact spares_of_cells rfl

end Config

end SlotRegistry
