import SlotRegistry.Proofs.Machine.Ledger
/-!
# Moves — every step is made of moves

One lemma for each function of the machine, and from them `step_moves`.
-/
namespace SlotRegistry
namespace Config

open Ledger (Move Moves InUse)

variable {α : Type} {c : Config α} {cell : Cell α} {n : CellId} {id : SlotId} {s : Scope α} {x : Outcome α}
  {next nx : Outcome α → Program α} {torn : Option CellId}

theorem ledger_put : (c.put n cell).ledger = { c.ledger with cells := c.ledger.cells.set n cell } := rfl

theorem ledger_reply : (c.reply x next).ledger = { c.ledger with torn := none } := rfl

theorem ledger_destroy {v : Stored α} :
    (c.destroy v s next).ledger = { c.ledger with stack := .call s next :: c.ledger.stack, torn := none } := rfl

theorem ledger_emit {e : Event} {lock : Lock} : (c.emit e n lock).ledger = c.ledger := by
  unfold emit World.emit
  split <;> rfl

theorem moves_reply : Moves c.ledger (c.reply x next).ledger := .single (.still _)

theorem moves_block : Moves c.ledger c.block.ledger := .single (.still _)

theorem set_of_getElem? {β : Type} {l : List β} {a : β} {n : Nat} (ha : l[n]? = some a) : l.set n a = l := by
  obtain ⟨hn, rfl⟩ := List.getElem?_eq_some_iff.1 ha
  exact List.set_getElem_self hn

theorem moves_put_self (hc : c.ledger.cells[n]? = some cell) :
    Moves c.ledger { c.ledger with cells := c.ledger.cells.set n cell, torn := none } := by
  rw [set_of_getElem? hc]
  exact .single (.still _)

/-! ### Letting go -/

theorem moves_letGo (hs : s.stake = some (n, .owning)) :
    Moves { c.ledger with stack := .call s nx :: c.stack, torn := torn } (c.letGo n x next).ledger := by
  unfold letGo
  split
  · rename_i hm
    exact .single (.lost rfl hs hm)
  · rename_i cell hc
    split
    · rename_i ho
      exact .single (.close rfl hs hc ho)
    · rename_i ho
      exact .single (.letGo rfl hs hc ho)

theorem moves_endReading (hs : s.stake = some (n, .reading)) :
    Moves { c.ledger with stack := .call s nx :: c.stack, torn := torn } (c.endReading n x next).ledger := by
  unfold endReading
  split
  · rename_i hm
    exact .single (.lost rfl hs hm)
  · rename_i cell hc
    exact .head (.endReading next rfl hs hc) (moves_letGo (c := c.put n _) rfl)

theorem moves_endWriting (hs : s.stake = some (n, .writing)) :
    Moves { c.ledger with stack := .call s nx :: c.stack, torn := torn } (c.endWriting n x next).ledger := by
  unfold endWriting
  split
  · rename_i hm
    exact .single (.lost rfl hs hm)
  · rename_i cell hc
    exact .head (.endWriting next rfl hs hc) (moves_letGo (c := c.put n _) rfl)

/-! ### Calls on a cell -/

theorem moves_reserve (hc : c.world.cells[n]? = some cell) : Moves c.ledger (c.reserve n cell next).ledger := by
  by_cases hin : c.thread ∈ cell.detector.inside
  · rw [reserve, writing_of_inside hin]; exact moves_reply
  by_cases hl : cell.lock = .free
  · cases hr : cell.registry.reserve with
    | ok p =>
      rw [reserve_of_ok hin hl hr, ledger_reply, ledger_put, ledger_emit]
      exact .single (.update p.2 hc hl)
    | error why =>
      rw [reserve_of_error hin hl hr, ledger_reply, ledger_put, ledger_emit]
      exact moves_put_self hc
  · rw [reserve, writing_of_held hin hl]; exact moves_block

theorem moves_store {v : Value α (Program α)}
    {bind : Registry (Stored α) → SlotId → Stored α → Except Refusal (Registry (Stored α))} {event : Event}
    (hc : c.world.cells[n]? = some cell) (hu : InUse c.ledger n cell) :
    Moves c.ledger (c.store n cell id v bind event x next).ledger := by
  by_cases hin : c.thread ∈ cell.detector.inside
  · rw [store_of_inside hin]
    exact .single (.bounce next hc hin hu)
  by_cases hl : cell.lock = .free
  · cases hr : bind cell.registry id ⟨c.world.handed, v⟩ with
    | ok r =>
      rw [store_of_ok hin hl hr, ledger_reply, ledger_put, ledger_emit]
      exact .single (.update r hc hl)
    | error why =>
      rw [store_of_error hin hl hr]
      exact .single (.beginWriting next hc hin hl hu rfl)
  · rw [store_of_held hin hl]
    exact .single (.still _)

theorem moves_pop (hc : c.world.cells[n]? = some cell) : Moves c.ledger (c.pop n cell id next).ledger := by
  by_cases hin : c.thread ∈ cell.detector.inside
  · rw [pop, writing_of_inside hin]; exact moves_reply
  by_cases hl : cell.lock = .free
  · cases hr : cell.registry.take id with
    | ok p =>
      rw [pop_of_ok hin hl hr]
      change Moves c.ledger { ((c.emit (.popped id) n .free).put n (cell.withRegistry p.2)).ledger with torn := none }
      rw [ledger_put, ledger_emit]
      exact .single (.update p.2 hc hl)
    | error why =>
      rw [pop_of_error hin hl hr]
      exact moves_put_self hc
  · rw [pop, writing_of_held hin hl]; exact moves_block

theorem moves_query {answer : Registry (Stored α) → Outcome α} (hc : c.world.cells[n]? = some cell) :
    Moves c.ledger (c.query n cell answer next).ledger := by
  rcases reading_cases c cell (c.refuseEntry next) _ with ⟨-, h⟩ | ⟨-, -, h⟩ | ⟨hin, readers, hl, -⟩
  · rw [query, h]; exact moves_reply
  · rw [query, h]; exact moves_block
  · rw [query_of_shared hin hl]
    exact moves_put_self hc

theorem moves_get (hc : c.world.cells[n]? = some cell) (hu : InUse c.ledger n cell) :
    Moves c.ledger (c.get n cell id next).ledger := by
  rcases reading_cases c cell (c.refuseEntry next) _ with ⟨-, h⟩ | ⟨-, -, h⟩ | ⟨hin, readers, hl, -⟩
  · rw [get, h]; exact moves_reply
  · rw [get, h]; exact moves_block
  · cases hr : cell.registry.get? id with
    | none =>
      rw [get_of_none hin hl hr]
      exact moves_put_self hc
    | some v =>
      rw [get_of_some hin hl hr]
      exact .single (.beginReading next hc hin hl hu rfl)

theorem moves_walkOn {visit : Array (Visit α) → SlotId → Option α → Program α} {visits : Array (Visit α)}
    {ahead : List SlotId} (hs : s.stake = some (n, .reading)) :
    Moves { c.ledger with stack := .call s nx :: c.stack, torn := torn }
      (c.walkOn n visit visits ahead next).ledger := by
  cases ahead with
  | nil => exact moves_endReading hs
  | cons id ahead => exact .single (.revisit next rfl hs rfl)

theorem moves_walk {visit : Array (Visit α) → SlotId → Option α → Program α} (hc : c.world.cells[n]? = some cell)
    (hu : InUse c.ledger n cell) : Moves c.ledger (c.walk n cell visit next).ledger := by
  rcases reading_cases c cell (c.refuseEntry next) _ with ⟨-, h⟩ | ⟨-, -, h⟩ | ⟨hin, readers, hl, -⟩
  · rw [walk, h]; exact moves_reply
  · rw [walk, h]; exact moves_block
  · rw [walk_of_shared hin hl]
    -- the lock is taken under a scope that visits nothing yet
    exact .head (.beginReading (s := .walking n visit #[] 0 none []) next hc hin hl hu rfl)
      (moves_walkOn (c := c.put n _) rfl)

theorem moves_release {ticket : Ticket} : Moves c.ledger (c.release ticket next).ledger := by
  cases hc : c.world.cells[ticket.cell]? with
  | none => rw [release_of_missing hc]; exact moves_reply
  | some cell =>
    by_cases ho : cell.owners = 0
    · rw [release_of_dead hc ho]; exact moves_reply
    by_cases hin : c.thread ∈ cell.detector.inside
    · rw [release_of_inside hc ho hin]; exact moves_reply
    by_cases hl : cell.lock = .free
    · by_cases hs : ∃ v, cell.registry.slot? ticket.id = some (.occupied v)
      · obtain ⟨v, hs⟩ := hs
        rw [release_of_occupied hc ho hin hl hs, ledger_destroy, ledger_put, ledger_emit]
        have hset : (c.ledger.cells.set ticket.cell (cell.withRegistry (cell.registry.remove ticket.id)))[ticket.cell]? =
            some (cell.withRegistry (cell.registry.remove ticket.id)) :=
          List.getElem?_set_self (List.getElem?_eq_some_iff.1 hc).1
        refine .head (.update (cell.registry.remove ticket.id) hc hl) ?_
        have hown := Move.own (L := { c.ledger with cells := _, torn := none }) next hset (.inr ho)
        rw [List.set_set] at hown
        exact .single hown
      · rw [release_of_not_occupied hc ho hin hl (fun v hv => hs ⟨v, hv⟩), ledger_reply, ledger_put, ledger_emit]
        exact .single (.update _ hc hl)
    · rw [release_of_held hc ho hin hl]; exact moves_block

theorem moves_dispose {serial : Nat} : Moves c.ledger (c.dispose serial next).ledger := by
  unfold dispose
  split
  · exact moves_reply
  · exact .single (.dispose next)

/-! ### Calls about handles -/

theorem moves_rebind {h : Handle} (hs : s.stake = some (n, .owning)) :
    Moves { c.ledger with stack := .call s next :: c.stack, torn := torn } (c.rebind h n x next).ledger := by
  refine .head (.bind h rfl hs) ?_
  unfold rebind
  cases hf : c.world.find? h with
  | none =>
    rw [show c.ledger.handles.lookup h = none from hf]
    exact .single (.still _)
  | some m =>
    rw [show c.ledger.handles.lookup h = some m from hf]
    exact moves_letGo (c := { c with world := c.world.bind h n }) rfl

theorem moves_create {h : Handle} : Moves c.ledger (c.create h next).ledger := by
  refine .head (.create c.ledger next) ?_
  exact moves_rebind (c := { c with world := c.world.create.2 }) rfl

theorem moves_share {target : Handle} (hc : c.world.cells[n]? = some cell) (hu : InUse c.ledger n cell) :
    Moves c.ledger ((c.put n cell.addOwner).rebind target n x next).ledger :=
  .head (.own next hc hu) (moves_rebind (c := c.put n cell.addOwner) rfl)

theorem moves_giveUp {h : Handle} (hb : c.world.find? h = some n) : Moves c.ledger (c.giveUp h n next).ledger :=
  .head (.unbind next hb) (moves_letGo (c := { c with world := c.world.unbind h }) rfl)

theorem moves_hold (hc : c.world.cells[n]? = some cell) (hu : InUse c.ledger n cell) :
    Moves c.ledger (c.hold n cell next).ledger := by
  refine .head (.own next hc hu) ?_
  exact moves_rebind (c := { c with world := { c.world with held := c.world.held + 1 }.put n cell.addOwner })
    (s := .discarding n) rfl

/-! ### Any call -/

theorem mem_of_lookup {handles : List (Handle × CellId)} {h : Handle} (hl : handles.lookup h = some n) :
    (h, n) ∈ handles := by
  obtain ⟨l₁, l₂, heq, -⟩ := List.lookup_eq_some_iff.1 hl
  rw [heq]
  exact List.mem_append_right _ List.mem_cons_self

theorem mem_of_find? {w : World α} {h : Handle} (hf : w.find? h = some n) : (h, n) ∈ w.handles := mem_of_lookup hf

theorem cellOf?_eq_some {w : World α} {h : Handle} {p : CellId × Cell α} (hw : w.cellOf? h = some p) :
    w.find? h = some p.1 ∧ w.cells[p.1]? = some p.2 := by
  unfold World.cellOf? at hw
  obtain ⟨m, hm, hcell⟩ := Option.bind_eq_some_iff.1 hw
  obtain ⟨cell, hc, rfl⟩ := Option.map_eq_some_iff.1 hcell
  exact ⟨hm, hc⟩

theorem moves_withCell {h : Handle} {act : CellId → Cell α → Config α}
    (hact : ∀ n cell, c.world.find? h = some n → c.world.cells[n]? = some cell → InUse c.ledger n cell →
      Moves c.ledger (act n cell).ledger) : Moves c.ledger (c.withCell h next act).ledger := by
  unfold withCell
  split
  · exact moves_reply
  · rename_i n cell hw
    obtain ⟨hf, hc⟩ := cellOf?_eq_some hw
    exact hact n cell hf hc (.inl ⟨h, mem_of_find? hf⟩)

theorem moves_perform (call : Call α (Program α)) : Moves c.ledger (c.perform next call).ledger := by
  cases call with
  | create h => exact moves_create
  | share source target => exact moves_withCell fun n cell _ hc hu => moves_share hc hu
  | hold h => exact moves_withCell fun n cell _ hc hu => moves_hold hc hu
  | giveUp h => exact moves_withCell fun n cell hf _ _ => moves_giveUp hf
  | inspect h => exact moves_withCell fun n cell _ _ _ => moves_reply
  | reserve h => exact moves_withCell fun n cell _ hc _ => moves_reserve hc
  | add h id v => exact moves_withCell fun n cell _ hc hu => moves_store hc hu
  | set h id v => exact moves_withCell fun n cell _ hc hu => moves_store hc hu
  | pop h id => exact moves_withCell fun n cell _ hc _ => moves_pop hc
  | get h id => exact moves_withCell fun n cell _ hc hu => moves_get hc hu
  | contains h id => exact moves_withCell fun n cell _ hc _ => moves_query hc
  | size h => exact moves_withCell fun n cell _ hc _ => moves_query hc
  | isEmpty h => exact moves_withCell fun n cell _ hc _ => moves_query hc
  | cursor h => exact moves_withCell fun n cell _ hc _ => moves_query hc
  | walk h visit => exact moves_withCell fun n cell _ hc hu => moves_walk hc hu
  | release ticket => exact moves_release
  | dispose serial => exact moves_dispose
  | shelve ticket => exact .single (.still _)
  | shelved number => exact moves_reply
  | unshelve number => exact .single (.still _)

/-! ### The end of user code, and the step -/

theorem moves_tearOn {ahead : List SlotId} (ht : c.control.torn = some n) :
    Moves c.ledger (c.tearOn n ahead x next).ledger := by
  unfold tearOn
  split
  · rename_i id ahead cell hc
    refine .head (.tear (cell.registry.remove id) ht hc) ?_
    split
    · exact .single (.beginTearing ahead x next ht)
    · change Moves { c.ledger with cells := _, torn := c.control.torn } { c.ledger with cells := _, torn := some n }
      rw [ht]
      exact .refl
  · exact moves_reply

theorem moves_resume {v : Verdict} {report : Option (List (Answer α))} :
    Moves { c.ledger with stack := .call s next :: c.stack, torn := torn } (c.resume s next v report).ledger := by
  cases s with
  | walking n visit visits id value ahead =>
    cases v with
    | goOn => exact moves_walkOn rfl
    | stop => exact moves_endReading rfl
    | raise message => exact moves_endReading rfl
  | copying n payload => cases v <;> exact moves_endReading rfl
  | rejecting n why => cases v <;> exact moves_endWriting rfl
  | bouncing n =>
    cases v with
    | goOn => exact moves_letGo rfl
    | stop => exact moves_letGo rfl
    | raise message => exact .single (.forget rfl rfl)
  | discarding n => cases v <;> exact moves_letGo rfl
  | tearing n ahead x =>
    cases v with
    | goOn => cases x <;> exact .single (.endTearing rfl)
    | stop => cases x <;> exact .single (.endTearing rfl)
    | raise message => cases x <;> exact .single (.pass rfl rfl)
  | disposing => cases v <;> exact .single (.pass rfl rfl)

/-- **Every step is made of moves.** -/
theorem step_moves (c : Config α) : Moves c.ledger c.step.ledger := by
  unfold step
  split
  · exact moves_perform _
  · exact .single (.still _)
  · rename_i body next _
    exact .head (.spawn next) (.single (.still _))
  · rename_i v report hcontrol
    split
    · exact .refl
    · rename_i s next stack hstack
      have hL : c.ledger = { ({ c with stack := stack } : Config α).ledger with stack := .call s next :: stack } := by
        rw [← hstack]; rfl
      rw [hL]
      exact moves_resume (c := { c with stack := stack })
    · rename_i u next stack hstack
      exact .single (.join hstack)
  · exact .single (.still _)
  · rename_i n ahead x next hcontrol
    exact moves_tearOn (by rw [hcontrol]; rfl)
  · exact .refl
  · exact .refl

end Config

end SlotRegistry
