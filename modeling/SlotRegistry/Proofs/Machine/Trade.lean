import SlotRegistry.Proofs.Machine.Course
import SlotRegistry.Registry.Lemmas
/-!
# Trade — what one step does to ids and values

A step of the machine touches one id of one cell at most: it hands the id out, binds a value to it, gives the value back,
destroys it, or frees the id; and what it does stands in the journal.  `step_trade` says so for every step, with the call
that was made and the frame or reply it leaves, and which cells lose their last owner.  Invariants of what is kept under
ids follow from it by cases, and none of their proofs opens a call again.
-/
namespace SlotRegistry

variable {α : Type}

/-- An entry that tells of no id and no value. -/
def Entry.isPlain : Entry α → Bool
  | created _ | closed _ | note _ _ => true
  | handed _ _ _ | returned _ | destroyed _ | event _ _ _ _ => false

/-- An entry that tells that a value is handed over. -/
def Entry.isHanded : Entry α → Bool
  | handed _ _ _ => true
  | created _ | closed _ | note _ _ | returned _ | destroyed _ | event _ _ _ _ => false

/-- What a call hands over, with the handle and the id it is for. -/
def Call.offer? : Call α (Program α) → Option (Handle × SlotId × Value α (Program α))
  | add h id v | set h id v => some (h, id, v)
  | _ => none

/-- The call fails in which the code of the scope runs: its value was refused, or it was turned away. -/
def Scope.IsFailing (n : CellId) : Scope α → Prop
  | rejecting m _ => m = n
  | bouncing m => m = n
  | walking _ _ _ _ _ _ | copying _ _ | discarding _ | tearing _ _ _ | disposing => False

namespace World

/-- The registry of a cell.  A cell that is not there has an empty one. -/
def registryAt (w : World α) (n : CellId) : Registry (Stored α) := ((w.cells[n]?).map Cell.registry).getD .empty

/-- The cell has lost its last owner. -/
def Dead (w : World α) (n : CellId) : Prop := ∃ cell, w.cells[n]? = some cell ∧ cell.owners = 0

/-- The entry of an event, if the listener is told of it. -/
def news (w : World α) (e : Event) (n : CellId) (t : Thread) (lock : Lock) : List (Entry α) :=
  if w.verbosity.shows e then [.event e n t lock] else []

/-- One world comes from another: the cell `n` has the registry `r`, and there is this news in the journal. -/
structure Writes (w w' : World α) (n : CellId) (r : Registry (Stored α)) (news : List (Entry α)) : Prop where
  registry : ∀ m, w'.registryAt m = if n = m then r else w.registryAt m
  journal : w'.journal = news ++ w.journal
  handed : w'.handed = w.handed + news.countP Entry.isHanded
  verbosity : w'.verbosity = w.verbosity
  dead : ∀ m, w'.Dead m → w.Dead m

section

variable {w w' w'' : World α} {n m : CellId} {cell cell' : Cell α} {r r' : Registry (Stored α)}
  {news news' : List (Entry α)}

theorem registryAt_of_getElem? (h : w.cells[n]? = some cell) : w.registryAt n = cell.registry := by
  rw [registryAt, h]; rfl

theorem registryAt_of_none (h : w.cells[n]? = none) : w.registryAt n = .empty := by rw [registryAt, h]; rfl

theorem not_dead_of_getElem? (h : w.cells[n]? = some cell) (ho : cell.owners ≠ 0) : ¬ w.Dead n := by
  rintro ⟨other, hc, hz⟩
  rw [h] at hc
  cases hc
  exact ho hz

/-- No registry is written. -/
def Keeps (w w' : World α) (news : List (Entry α)) : Prop := ∀ n, w.Writes w' n (w.registryAt n) news

theorem keeps_of_registry (registry : ∀ m, w'.registryAt m = w.registryAt m) (journal : w'.journal = news ++ w.journal)
    (handed : w'.handed = w.handed + news.countP Entry.isHanded) (verbosity : w'.verbosity = w.verbosity)
    (dead : ∀ m, w'.Dead m → w.Dead m) : w.Keeps w' news := by
  refine fun n => ⟨fun m => ?_, journal, handed, verbosity, dead⟩
  rw [registry]
  split
  · rename_i hm; rw [hm]
  · rfl

theorem keeps_of_cells (cells : w'.cells = w.cells) (journal : w'.journal = news ++ w.journal)
    (handed : w'.handed = w.handed + news.countP Entry.isHanded) (verbosity : w'.verbosity = w.verbosity) :
    w.Keeps w' news := by
  refine keeps_of_registry (fun m => ?_) journal handed verbosity (fun m hd => ?_)
  · rw [registryAt, cells, registryAt]
  · rw [Dead, cells] at hd
    exact hd

theorem Keeps.registry (h : w.Keeps w' news) (m : CellId) : w'.registryAt m = w.registryAt m := by
  rw [(h m).registry, if_pos rfl]

/-- News of two steps, the later first. -/
theorem Keeps.writes (h : w.Keeps w' news) (h' : w'.Writes w'' n r news') : w.Writes w'' n r (news' ++ news) := by
  refine ⟨fun m => ?_, ?_, ?_, h'.verbosity.trans (h n).verbosity, fun m hd => (h n).dead m (h'.dead m hd)⟩
  · rw [h'.registry, h.registry]
  · rw [h'.journal, (h n).journal, List.append_assoc]
  · rw [h'.handed, (h n).handed, List.countP_append]
    omega

theorem Writes.keeps (h : w.Writes w' n r news) (h' : w'.Keeps w'' news') : w.Writes w'' n r (news' ++ news) := by
  refine ⟨fun m => ?_, ?_, ?_, (h' n).verbosity.trans h.verbosity, fun m hd => h.dead m ((h' n).dead m hd)⟩
  · rw [h'.registry, h.registry]
  · rw [(h' n).journal, h.journal, List.append_assoc]
  · rw [(h' n).handed, h.handed, List.countP_append]
    omega

theorem Keeps.trans (h : w.Keeps w' news) (h' : w'.Keeps w'' news') : w.Keeps w'' (news' ++ news) :=
  fun n => (h n).keeps h'

/-- One more owner does not leave a cell without any. -/
theorem owners_of_addOwner (h : cell.addOwner.owners = 0) : cell.owners = 0 := absurd h (Nat.succ_ne_zero _)

theorem writes_put (cell' : Cell α) (hc : w.cells[n]? = some cell) (owners : cell'.owners = 0 → cell.owners = 0) :
    w.Writes (w.put n cell') n cell'.registry [] := by
  have hget : ∀ m, (w.put n cell').cells[m]? = if n = m then some cell' else w.cells[m]? := by
    intro m
    rw [put, List.getElem?_set]
    by_cases hm : n = m
    · subst hm
      simp [(List.getElem?_eq_some_iff.1 hc).1]
    · simp [hm]
  refine ⟨fun m => ?_, rfl, rfl, rfl, fun m ⟨other, ho, hz⟩ => ?_⟩
  · rw [registryAt, hget]
    split <;> rfl
  · rw [hget] at ho
    split at ho
    · rename_i hm
      cases ho
      exact ⟨cell, hm ▸ hc, owners hz⟩
    · exact ⟨other, ho, hz⟩

theorem keeps_put (cell' : Cell α) (hc : w.cells[n]? = some cell) (hr : cell'.registry = cell.registry)
    (owners : cell'.owners = 0 → cell.owners = 0) : w.Keeps (w.put n cell') [] := by
  have hw := writes_put cell' hc owners
  refine keeps_of_registry (fun m => ?_) hw.journal hw.handed hw.verbosity hw.dead
  rw [hw.registry, hr, ← registryAt_of_getElem? hc]
  split
  · rename_i hm; rw [hm]
  · rfl

theorem keeps_emit {e : Event} {t : Thread} {lock : Lock} : w.Keeps (w.emit e n t lock) (w.news e n t lock) := by
  unfold emit news
  split
  · exact keeps_of_cells rfl rfl rfl rfl
  · exact keeps_of_cells rfl rfl rfl rfl

theorem keeps_log {e : Entry α} (he : e.isHanded = false) : w.Keeps (w.log e) [e] :=
  keeps_of_cells rfl rfl (by rw [List.countP_singleton, he]; rfl) rfl

theorem keeps_handOver (v : Value α (Program α)) {id : SlotId} :
    w.Keeps (w.handOver v n id).2 [.handed w.handed n id] :=
  keeps_of_cells rfl rfl rfl rfl

/-- A value is handed over and destroyed, under a cell that keeps its registry. -/
theorem keeps_refuse (v : Value α (Program α)) {id : SlotId} (cell' : Cell α) (hc : w.cells[n]? = some cell)
    (hr : cell'.registry = cell.registry) (owners : cell'.owners = 0 → cell.owners = 0) :
    w.Keeps (((w.handOver v n id).2.put n cell').log (.destroyed w.handed))
      [.destroyed w.handed, .handed w.handed n id] := by
  have hover : w.Keeps (w.handOver v n id).2 [.handed w.handed n id] := keeps_handOver v
  have hput := hover.trans (keeps_put cell' hc hr owners)
  exact hput.trans (keeps_log rfl)

theorem keeps_giveBack {s : Stored α} : w.Keeps (w.giveBack s) [.returned s.serial] := keeps_of_cells rfl rfl rfl rfl

theorem keeps_create : w.Keeps w.create.2 [.created w.cells.length] := by
  refine keeps_of_registry (fun m => ?_) rfl rfl rfl (fun m ⟨cell, hc, ho⟩ => ?_)
  · rcases Nat.lt_trichotomy m w.cells.length with hm | rfl | hm
    · exact congrArg (fun cell => (cell.map Cell.registry).getD .empty) (List.getElem?_append_left hm)
    · have hfresh : w.create.2.cells[w.cells.length]? = some Cell.fresh := by simp [create, log]
      rw [registryAt_of_none (List.getElem?_eq_none (Nat.le_refl _)), registryAt_of_getElem? hfresh]
      rfl
    · rw [registryAt_of_none (List.getElem?_eq_none (Nat.le_of_lt hm))]
      exact registryAt_of_none (List.getElem?_eq_none (by simp [create, log]; omega))
  · rcases Nat.lt_trichotomy m w.cells.length with hm | rfl | hm
    · exact ⟨cell, (List.getElem?_append_left hm).symm.trans hc, ho⟩
    · have hfresh : w.create.2.cells[w.cells.length]? = some Cell.fresh := by simp [create, log]
      rw [hfresh] at hc
      cases hc
      cases ho
    · rw [List.getElem?_eq_none (by simp [create, log]; omega)] at hc
      cases hc

end

end World

namespace Config

/-- No id and no value is touched.  A cell that loses its last owner is about to be cleared of all its ids. -/
structure Rests (c d : Config α) : Prop where
  registry : ∀ m, d.world.registryAt m = c.world.registryAt m
  journal : ∃ news, d.world.journal = news ++ c.world.journal ∧ ∀ e ∈ news, e.isPlain
  handed : d.world.handed = c.world.handed
  verbosity : d.world.verbosity = c.world.verbosity
  dies : ∀ m, d.world.Dead m → c.world.Dead m ∨ ∃ x next, d.control = .tearing m (c.world.registryAt m).ids x next

/-- What a step does to ids and values. -/
inductive Trade (c d : Config α) : Prop
  | rests (h : c.Rests d)
  | reserved {h : Handle} {n : CellId} {id : SlotId} {r : Registry (Stored α)} {next : Outcome α → Program α}
      (control : c.control = .running (.call (.reserve h) next)) (alive : ¬ c.world.Dead n)
      (granted : (c.world.registryAt n).reserve = .ok (id, r))
      (writes : c.world.Writes d.world n r (c.world.news (.reserved id) n c.thread .free))
  | exhausted {h : Handle} {n : CellId} {why : Refusal} {next : Outcome α → Program α}
      (control : c.control = .running (.call (.reserve h) next)) (alive : ¬ c.world.Dead n)
      (refused : (c.world.registryAt n).reserve = .error why)
      (keeps : c.world.Keeps d.world
        (c.world.news (.exhausted (c.world.registryAt n).cursor) n c.thread (.shared [c.thread])))
  /-- A value is handed over and bound, and the call is over. -/
  | stored {call : Call α (Program α)} {h : Handle} {n : CellId} {id : SlotId} {v : Value α (Program α)} {e : Event}
      {x : Outcome α} {next : Outcome α → Program α} (control : c.control = .running (.call call next))
      (offer : call.offer? = some (h, id, v)) (here : c.world.find? h = some n) (alive : ¬ c.world.Dead n)
      (vacant : (c.world.registryAt n).slot? id = none ∧ e = .added id ∨
        (c.world.registryAt n).slot? id = some .reserved ∧ e = .set id)
      (writes : c.world.Writes d.world n ((c.world.registryAt n).withSlot id (.occupied ⟨c.world.handed, v⟩))
        (c.world.news e n c.thread .free ++ [.handed c.world.handed n id]))
      (reply : d.control = .replying x next) (ok : x.failed = false) (stack : d.stack = c.stack)
  /-- A value is handed over and destroyed; the call fails. -/
  | failed {call : Call α (Program α)} {h : Handle} {n : CellId} {id : SlotId} {v : Value α (Program α)} {s : Scope α}
      {next : Outcome α → Program α} (control : c.control = .running (.call call next))
      (offer : call.offer? = some (h, id, v)) (here : c.world.find? h = some n)
      (keeps : c.world.Keeps d.world [.destroyed c.world.handed, .handed c.world.handed n id])
      (failing : s.IsFailing n) (runs : d.control = .running v.onDestroy) (stack : d.stack = .call s next :: c.stack)
  /-- A value is handed over to a call that waits for ever. -/
  | stuck {call : Call α (Program α)} {h : Handle} {n : CellId} {id : SlotId} {v : Value α (Program α)}
      {next : Outcome α → Program α} (control : c.control = .running (.call call next))
      (offer : call.offer? = some (h, id, v)) (keeps : c.world.Keeps d.world [.handed c.world.handed n id])
      (blocked : d.control = .blocked)
  | popped {h : Handle} {n : CellId} {id : SlotId} {v : Stored α} {next : Outcome α → Program α}
      (control : c.control = .running (.call (.pop h id) next)) (here : c.world.find? h = some n)
      (alive : ¬ c.world.Dead n) (occupied : (c.world.registryAt n).slot? id = some (.occupied v))
      (writes : c.world.Writes d.world n ((c.world.registryAt n).remove id)
        (.returned v.serial :: c.world.news (.popped id) n c.thread .free))
      (reply : d.control = .replying (.popped v.serial v.value.payload) next) (stack : d.stack = c.stack)
  /-- A release removes a value, which is destroyed. -/
  | released {ticket : Ticket} {v : Stored α} {next : Outcome α → Program α}
      (control : c.control = .running (.call (.release ticket) next)) (alive : ¬ c.world.Dead ticket.cell)
      (occupied : (c.world.registryAt ticket.cell).slot? ticket.id = some (.occupied v))
      (writes : c.world.Writes d.world ticket.cell ((c.world.registryAt ticket.cell).remove ticket.id)
        (.destroyed v.serial :: c.world.news (.released ticket.id true) ticket.cell c.thread .free))
      (runs : d.control = .running v.value.onDestroy)
      (stack : d.stack = .call (.discarding ticket.cell) next :: c.stack)
  /-- A release removes an id without a value, or finds none. -/
  | freed {ticket : Ticket} {next : Outcome α → Program α}
      (control : c.control = .running (.call (.release ticket) next)) (alive : ¬ c.world.Dead ticket.cell)
      (vacant : ∀ v, (c.world.registryAt ticket.cell).slot? ticket.id ≠ some (.occupied v))
      (writes : c.world.Writes d.world ticket.cell ((c.world.registryAt ticket.cell).remove ticket.id)
        (c.world.news (.released ticket.id ((c.world.registryAt ticket.cell).slot? ticket.id).isSome) ticket.cell
          c.thread .free))
      (reply : d.control = .replying .done next) (stack : d.stack = c.stack)
  /-- A value of a cell without owners is destroyed. -/
  | torn {n : CellId} {id : SlotId} {ahead : List SlotId} {v : Stored α} {x : Outcome α} {next : Outcome α → Program α}
      (control : c.control = .tearing n (id :: ahead) x next) (dead : c.world.Dead n)
      (occupied : (c.world.registryAt n).slot? id = some (.occupied v))
      (writes : c.world.Writes d.world n ((c.world.registryAt n).remove id) [.destroyed v.serial])
      (runs : d.control = .running v.value.onDestroy) (stack : d.stack = .call (.tearing n ahead x) next :: c.stack)
  /-- An id without a value is cleared from a cell without owners. -/
  | cleared {n : CellId} {id : SlotId} {ahead : List SlotId} {x : Outcome α} {next : Outcome α → Program α}
      (control : c.control = .tearing n (id :: ahead) x next) (dead : c.world.Dead n)
      (vacant : ∀ v, (c.world.registryAt n).slot? id ≠ some (.occupied v))
      (writes : c.world.Writes d.world n ((c.world.registryAt n).remove id) [])
      (goesOn : d.control = .tearing n ahead x next) (stack : d.stack = c.stack)

variable {c d e : Config α} {cell cell' : Cell α} {n m : CellId} {id : SlotId} {x : Outcome α}
  {next : Outcome α → Program α} {news : List (Entry α)}

/-- A step that does not leave ids and values alone writes one registry, which may come out as it was. -/
theorem Trade.rests_or_writes (h : c.Trade d) : c.Rests d ∨ ∃ n r news, c.world.Writes d.world n r news := by
  cases h with
  | rests h => exact .inl h
  | exhausted _ _ _ keeps => exact .inr ⟨0, _, _, keeps 0⟩
  | failed _ _ _ keeps => exact .inr ⟨0, _, _, keeps 0⟩
  | stuck _ _ keeps => exact .inr ⟨0, _, _, keeps 0⟩
  | reserved _ _ _ writes => exact .inr ⟨_, _, _, writes⟩
  | stored _ _ _ _ _ writes => exact .inr ⟨_, _, _, writes⟩
  | popped _ _ _ _ writes => exact .inr ⟨_, _, _, writes⟩
  | released _ _ _ writes => exact .inr ⟨_, _, _, writes⟩
  | freed _ _ _ writes => exact .inr ⟨_, _, _, writes⟩
  | torn _ _ _ writes => exact .inr ⟨_, _, _, writes⟩
  | cleared _ _ _ writes => exact .inr ⟨_, _, _, writes⟩

/-! ### Steps that touch no id and no value -/

theorem rests_of_keeps (h : c.world.Keeps d.world news) (plain : ∀ e ∈ news, e.isPlain) : c.Rests d where
  registry := h.registry
  journal := ⟨news, (h 0).journal, plain⟩
  handed := by
    have hnone : news.countP Entry.isHanded = 0 := by
      rw [List.countP_eq_zero]
      intro e he
      have := plain e he
      cases e <;> simp_all [Entry.isPlain, Entry.isHanded]
    rw [(h 0).handed, hnone]
    rfl
  verbosity := (h 0).verbosity
  dies m hd := .inl ((h 0).dead m hd)

/-- Nothing but handles, shelf, control and stack has changed. -/
theorem rests_of_cells (cells : d.world.cells = c.world.cells) (journal : d.world.journal = c.world.journal)
    (handed : d.world.handed = c.world.handed) (verbosity : d.world.verbosity = c.world.verbosity) : c.Rests d := by
  have hkeeps : c.world.Keeps d.world [] := World.keeps_of_cells cells journal handed verbosity
  exact rests_of_keeps hkeeps nofun

theorem rests_of_world (h : d.world = c.world) : c.Rests d :=
  rests_of_cells (by rw [h]) (by rw [h]) (by rw [h]) (by rw [h])

theorem Rests.of_keeps (h : Rests e d) (keeps : c.world.Keeps e.world news) (plain : ∀ e ∈ news, e.isPlain) :
    Rests c d where
  registry m := by rw [h.registry, keeps.registry]
  journal := by
    obtain ⟨later, hj, hplain⟩ := h.journal
    refine ⟨later ++ news, by rw [hj, (keeps 0).journal, List.append_assoc], fun e he => ?_⟩
    rcases List.mem_append.1 he with he | he
    · exact hplain e he
    · exact plain e he
  handed := h.handed.trans (rests_of_keeps (d := e) keeps plain).handed
  verbosity := h.verbosity.trans (keeps 0).verbosity
  dies m hd := by
    rcases h.dies m hd with hd | ⟨x, next, hc⟩
    · exact .inl ((keeps 0).dead m hd)
    · exact .inr ⟨x, next, by rw [hc, keeps.registry]⟩

/-- What came before changed nothing but handles, shelf, control and stack. -/
theorem Rests.of_cells (h : Rests e d) (cells : e.world.cells = c.world.cells)
    (journal : e.world.journal = c.world.journal) (handed : e.world.handed = c.world.handed)
    (verbosity : e.world.verbosity = c.world.verbosity) : Rests c d := by
  have hkeeps : c.world.Keeps e.world [] := World.keeps_of_cells cells journal handed verbosity
  exact h.of_keeps hkeeps nofun

theorem rests_of_log {e : Entry α} (h : d.world = c.world.log e) (he : e.isPlain) : c.Rests d := by
  have hkeeps : c.world.Keeps d.world [e] := by
    rw [h]
    exact World.keeps_log (by cases e <;> first | rfl | cases he)
  exact rests_of_keeps hkeeps fun e' he' => by rw [List.mem_singleton.1 he']; exact he

theorem rests_of_put (h : d.world = c.world.put n cell') (hc : c.world.cells[n]? = some cell)
    (hr : cell'.registry = cell.registry) (owners : cell'.owners = 0 → cell.owners = 0) : c.Rests d := by
  have hkeeps : c.world.Keeps d.world [] := by
    rw [h]
    exact World.keeps_put cell' hc hr owners
  exact rests_of_keeps hkeeps nofun

theorem Rests.of_put (h : Rests (c.put n cell') d) (hc : c.world.cells[n]? = some cell)
    (hr : cell'.registry = cell.registry) (owners : cell'.owners = 0 → cell.owners = 0) : Rests c d :=
  h.of_keeps (World.keeps_put cell' hc hr owners) nofun

theorem rests_letGo : c.Rests (c.letGo n x next) := by
  unfold letGo
  split
  · exact rests_of_world rfl
  · rename_i cell hc
    split
    · have hget : ∀ m, ((c.put n { cell with owners := 0 }).log (.closed n)).world.cells[m]? =
          if n = m then some { cell with owners := 0 } else c.world.cells[m]? :=
        fun m => Ledger.getElem?_set_cells (L := c.ledger) hc m
      refine ⟨fun m => ?_, ⟨[.closed n], rfl, fun e he => by rw [List.mem_singleton.1 he]; rfl⟩, rfl, rfl,
        fun m hd => ?_⟩
      · by_cases hm : n = m
        · subst hm
          exact (World.registryAt_of_getElem? ((hget n).trans (if_pos rfl))).trans (World.registryAt_of_getElem? hc).symm
        · exact congrArg (fun o => (Option.map Cell.registry o).getD .empty) ((hget m).trans (if_neg hm))
      -- the cell that is closed here is the one that dies, and its clearing begins with all its ids
      · by_cases hm : n = m
        · subst hm
          exact .inr ⟨x, next, by rw [World.registryAt_of_getElem? hc]⟩
        · obtain ⟨other, ho, hz⟩ := hd
          exact .inl ⟨other, ((hget m).trans (if_neg hm)).symm.trans ho, hz⟩
    · rename_i ho
      refine rests_of_put rfl hc rfl (fun hz => ?_)
      simp only at hz
      omega

theorem rests_endReading : c.Rests (c.endReading n x next) := by
  unfold endReading
  split
  · exact rests_of_world rfl
  · rename_i cell hc
    exact rests_letGo.of_put hc rfl id

theorem rests_endWriting : c.Rests (c.endWriting n x next) := by
  unfold endWriting
  split
  · exact rests_of_world rfl
  · rename_i cell hc
    exact rests_letGo.of_put hc rfl id

theorem rests_walkOn {visit : Array (Visit α) → SlotId → Option α → Program α} {visits : Array (Visit α)}
    {ahead : List SlotId} : c.Rests (c.walkOn n visit visits ahead next) := by
  unfold walkOn
  split
  · exact rests_endReading
  · exact rests_of_world rfl

/-- When user code ends, its call goes on without touching an id or a value. -/
theorem rests_resume {s : Scope α} {v : Verdict} {report : Option (List (Answer α))} :
    c.Rests (c.resume s next v report) := by
  cases s with
  | walking n visit visits id value ahead =>
    cases v with
    | goOn => exact rests_walkOn
    | stop => exact rests_endReading
    | raise message => exact rests_endReading
  | copying n payload => cases v <;> exact rests_endReading
  | rejecting n why => cases v <;> exact rests_endWriting
  | bouncing n =>
    cases v with
    | goOn => exact rests_letGo
    | stop => exact rests_letGo
    | raise message => exact rests_of_world rfl
  | discarding n => cases v <;> exact rests_letGo
  | tearing n ahead x =>
    cases v with
    | goOn => cases x <;> exact rests_of_world rfl
    | stop => cases x <;> exact rests_of_world rfl
    | raise message => cases x <;> exact rests_of_world rfl
  | disposing => cases v <;> exact rests_of_world rfl

theorem rests_query {answer : Registry (Stored α) → Outcome α} (hc : c.world.cells[n]? = some cell) :
    c.Rests (c.query n cell answer next) := by
  rcases reading_cases c cell (c.refuseEntry next) _ with ⟨-, h⟩ | ⟨-, -, h⟩ | ⟨hin, readers, hl, -⟩
  · rw [query, h]; exact rests_of_world rfl
  · rw [query, h]; exact rests_of_world rfl
  · rw [query_of_shared hin hl]; exact rests_of_put rfl hc rfl fun h => h

theorem rests_get (hc : c.world.cells[n]? = some cell) : c.Rests (c.get n cell id next) := by
  rcases reading_cases c cell (c.refuseEntry next) _ with ⟨-, h⟩ | ⟨-, -, h⟩ | ⟨hin, readers, hl, -⟩
  · rw [get, h]; exact rests_of_world rfl
  · rw [get, h]; exact rests_of_world rfl
  · cases hr : cell.registry.get? id with
    | none => rw [get_of_none hin hl hr]; exact rests_of_put rfl hc rfl fun h => h
    | some v => rw [get_of_some hin hl hr]; exact rests_of_put rfl hc rfl World.owners_of_addOwner

theorem rests_walk {visit : Array (Visit α) → SlotId → Option α → Program α} (hc : c.world.cells[n]? = some cell) :
    c.Rests (c.walk n cell visit next) := by
  rcases reading_cases c cell (c.refuseEntry next) _ with ⟨-, h⟩ | ⟨-, -, h⟩ | ⟨hin, readers, hl, -⟩
  · rw [walk, h]; exact rests_of_world rfl
  · rw [walk, h]; exact rests_of_world rfl
  · rw [walk_of_shared hin hl]; exact rests_walkOn.of_put hc rfl World.owners_of_addOwner

theorem rests_dispose {serial : Nat} : c.Rests (c.dispose serial next) := by
  unfold dispose
  split
  · exact rests_of_world rfl
  · exact rests_of_cells rfl rfl rfl rfl

theorem rests_rebind {h : Handle} : c.Rests (c.rebind h n x next) := by
  unfold rebind
  dsimp only
  split
  · exact rests_of_cells rfl rfl rfl rfl
  · exact rests_letGo.of_cells rfl rfl rfl rfl

theorem rests_create {h : Handle} : c.Rests (c.create h next) :=
  rests_rebind.of_keeps (e := { c with world := c.world.create.2 }) World.keeps_create
    fun e he => by rw [List.mem_singleton.1 he]; rfl

theorem rests_share {h : Handle} (hc : c.world.cells[n]? = some cell) :
    c.Rests ((c.put n cell.addOwner).rebind h n x next) := rests_rebind.of_put hc rfl World.owners_of_addOwner

theorem rests_hold (hc : c.world.cells[n]? = some cell) : c.Rests (c.hold n cell next) := by
  have hrests : Rests (c.put n cell.addOwner) (c.hold n cell next) := rests_rebind.of_cells rfl rfl rfl rfl
  exact hrests.of_put hc rfl World.owners_of_addOwner

theorem rests_giveUp {h : Handle} : c.Rests (c.giveUp h n next) := rests_letGo.of_cells rfl rfl rfl rfl

/-! ### Steps that touch one id -/

theorem trade_reserve {h : Handle} (control : c.control = .running (.call (.reserve h) next))
    (hc : c.world.cells[n]? = some cell) (ho : cell.owners ≠ 0) : c.Trade (c.reserve n cell next) := by
  have hr := World.registryAt_of_getElem? hc
  have alive := World.not_dead_of_getElem? hc ho
  by_cases hin : c.thread ∈ cell.detector.inside
  · rw [reserve, writing_of_inside hin]; exact .rests (rests_of_world rfl)
  by_cases hl : cell.lock = .free
  · have hemit : ∀ (e : Event) (lock : Lock), (c.emit e n lock).world.cells[n]? = some cell := by
      intro e lock
      rw [cells_emit]
      exact hc
    cases hg : cell.registry.reserve with
    | ok p =>
      rw [reserve_of_ok hin hl hg]
      exact .reserved control alive (by rw [hr]; exact hg)
        (World.keeps_emit.writes (World.writes_put (cell.withRegistry p.2) (hemit _ _) fun h => h))
    | error why =>
      rw [reserve_of_error hin hl hg]
      refine .exhausted control alive (by rw [hr]; exact hg) ?_
      rw [hr]
      exact World.keeps_emit.trans (World.keeps_put cell (hemit _ _) rfl fun h => h)
  · rw [reserve, writing_of_held hin hl]; exact .rests (rests_of_world rfl)

/-- What storing does, for any way to bind a value that needs the slot `vacant` and fills it. -/
theorem trade_store {call : Call α (Program α)} {h : Handle} {v : Value α (Program α)}
    {vacant : Option (Slot (Stored α))} {bind : Registry (Stored α) → SlotId → Stored α → Except Refusal (Registry (Stored α))} {event : Event}
    (control : c.control = .running (.call call next)) (offer : call.offer? = some (h, id, v))
    (here : c.world.find? h = some n) (hc : c.world.cells[n]? = some cell) (ho : cell.owners ≠ 0)
    (ok : x.failed = false)
    (fits : vacant = none ∧ event = .added id ∨ vacant = some .reserved ∧ event = .set id)
    (binds : ∀ r s r', bind r id s = .ok r' → r.slot? id = vacant ∧ r' = r.withSlot id (.occupied s)) :
    c.Trade (c.store n cell id v bind event x next) := by
  have hr := World.registryAt_of_getElem? hc
  by_cases hin : c.thread ∈ cell.detector.inside
  · rw [store_of_inside hin]
    exact .failed control offer here (World.keeps_refuse v cell.addOwner hc rfl World.owners_of_addOwner)
      (show Scope.IsFailing n (.bouncing n) from rfl) rfl rfl
  by_cases hl : cell.lock = .free
  · cases hb : bind cell.registry id ⟨c.world.handed, v⟩ with
    | ok r =>
      obtain ⟨hs, rfl⟩ := binds _ _ _ hb
      have hover : c.world.Keeps (c.world.handOver v n id).2 [.handed c.world.handed n id] := World.keeps_handOver v
      have hemit : ((c.world.handOver v n id).2.emit event n c.thread .free).cells[n]? = some cell :=
        (congrArg (·[n]?) (cells_emit (c := { c with world := (c.world.handOver v n id).2 }))).trans hc
      have hput := World.writes_put (cell.withRegistry (cell.registry.withSlot id (.occupied ⟨c.world.handed, v⟩))) hemit
        fun h => h
      rw [store_of_ok hin hl hb]
      refine .stored (e := event) control offer here (World.not_dead_of_getElem? hc ho) (by rw [hr, hs]; exact fits) ?_
        rfl ok rfl
      rw [hr]
      exact (hover.trans World.keeps_emit).writes hput
    | error why =>
      rw [store_of_error hin hl hb]
      exact .failed control offer here
        (World.keeps_refuse v (cell.heldForWriting c.thread).addOwner hc rfl World.owners_of_addOwner)
        (show Scope.IsFailing n (.rejecting n why) from rfl) rfl rfl
  · rw [store_of_held hin hl]
    exact .stuck control offer (World.keeps_handOver v) rfl

theorem trade_pop {h : Handle} (control : c.control = .running (.call (.pop h id) next))
    (here : c.world.find? h = some n) (hc : c.world.cells[n]? = some cell) (ho : cell.owners ≠ 0) :
    c.Trade (c.pop n cell id next) := by
  have hr := World.registryAt_of_getElem? hc
  by_cases hin : c.thread ∈ cell.detector.inside
  · rw [pop, writing_of_inside hin]; exact .rests (rests_of_world rfl)
  by_cases hl : cell.lock = .free
  · by_cases hs : ∃ v, cell.registry.slot? id = some (.occupied v)
    · obtain ⟨v, hs⟩ := hs
      rw [pop_of_ok hin hl (Registry.take_of_occupied hs)]
      refine .popped control here (World.not_dead_of_getElem? hc ho) (by rw [hr]; exact hs) ?_ rfl rfl
      rw [hr]
      have hemit : (c.emit (.popped id) n .free).world.cells[n]? = some cell := by rw [cells_emit]; exact hc
      have hput := World.writes_put (cell.withRegistry (cell.registry.remove id)) hemit fun h => h
      exact (World.keeps_emit.writes hput).keeps World.keeps_giveBack
    · have herror : ∃ why, cell.registry.take id = .error why := by
        cases hslot : cell.registry.slot? id with
        | none => exact ⟨_, Registry.take_of_absent hslot⟩
        | some slot =>
          cases slot with
          | reserved => exact ⟨_, Registry.take_of_reserved hslot⟩
          | occupied v => exact absurd ⟨v, hslot⟩ hs
      obtain ⟨why, herror⟩ := herror
      rw [pop_of_error hin hl herror]
      exact .rests (rests_of_put rfl hc rfl fun h => h)
  · rw [pop, writing_of_held hin hl]; exact .rests (rests_of_world rfl)

theorem trade_release {ticket : Ticket} (control : c.control = .running (.call (.release ticket) next)) :
    c.Trade (c.release ticket next) := by
  cases hc : c.world.cells[ticket.cell]? with
  | none => rw [release_of_missing hc]; exact .rests (rests_of_world rfl)
  | some cell =>
    by_cases ho : cell.owners = 0
    · rw [release_of_dead hc ho]; exact .rests (rests_of_world rfl)
    by_cases hin : c.thread ∈ cell.detector.inside
    · rw [release_of_inside hc ho hin]; exact .rests (rests_of_world rfl)
    by_cases hl : cell.lock = .free
    · have hr := World.registryAt_of_getElem? hc
      have alive := World.not_dead_of_getElem? hc ho
      have hemit : ∀ b, (c.emit (.released ticket.id b) ticket.cell .free).world.cells[ticket.cell]? = some cell := by
        intro b
        rw [cells_emit]
        exact hc
      by_cases hs : ∃ v, cell.registry.slot? ticket.id = some (.occupied v)
      · obtain ⟨v, hs⟩ := hs
        rw [release_of_occupied hc ho hin hl hs]
        refine .released control alive (by rw [hr]; exact hs) ?_ rfl rfl
        rw [hr]
        have hput := World.writes_put (cell.withRegistry (cell.registry.remove ticket.id)).addOwner (hemit true)
          World.owners_of_addOwner
        exact (World.keeps_emit.writes hput).keeps (World.keeps_log rfl)
      · rw [release_of_not_occupied hc ho hin hl (fun v hv => hs ⟨v, hv⟩)]
        refine .freed control alive (fun v hv => hs ⟨v, by rw [← hr]; exact hv⟩) ?_ rfl rfl
        rw [hr]
        have hput := World.writes_put (cell.withRegistry (cell.registry.remove ticket.id))
          (hemit (cell.registry.slot? ticket.id).isSome) fun h => h
        exact World.keeps_emit.writes hput
    · rw [release_of_held hc ho hin hl]; exact .rests (rests_of_world rfl)

theorem trade_tearOn {ahead : List SlotId} (control : c.control = .tearing n ahead x next) (dead : c.world.Dead n) :
    c.Trade (c.tearOn n ahead x next) := by
  cases ahead with
  | nil => exact .rests (rests_of_world rfl)
  | cons id ahead =>
    have ⟨cell, hc, ho⟩ := dead
    have hr := World.registryAt_of_getElem? hc
    have hput := World.writes_put (cell.withRegistry (cell.registry.remove id)) hc fun h => h
    cases hs : cell.registry.get? id with
    | none =>
      rw [tearOn_of_none hc hs]
      exact .cleared control dead (by rw [hr]; exact Registry.get?_eq_none.1 hs) (by rw [hr]; exact hput) rfl rfl
    | some v =>
      rw [tearOn_of_value hc hs]
      exact .torn control dead (by rw [hr]; exact Registry.get?_eq_some.1 hs)
        (by rw [hr]; exact hput.keeps (World.keeps_log rfl)) rfl rfl

theorem trade_withCell {h : Handle} {act : CellId → Cell α → Config α}
    (owned : ∀ n cell, c.world.find? h = some n → c.world.cells[n]? = some cell → cell.owners ≠ 0)
    (hact : ∀ n cell, c.world.find? h = some n → c.world.cells[n]? = some cell → cell.owners ≠ 0 →
      c.Trade (act n cell)) :
    c.Trade (c.withCell h next act) := by
  unfold withCell
  split
  · exact .rests (rests_of_world rfl)
  · rename_i n cell hw
    obtain ⟨hf, hc⟩ := cellOf?_eq_some hw
    exact hact n cell hf hc (owned n cell hf hc)

theorem trade_perform {call : Call α (Program α)} (control : c.control = .running (.call call next))
    (owned : ∀ h n cell, c.world.find? h = some n → c.world.cells[n]? = some cell → cell.owners ≠ 0) :
    c.Trade (c.perform next call) := by
  cases call with
  | create h => exact .rests rests_create
  | share source target => exact trade_withCell (owned _) fun n cell _ hc _ => .rests (rests_share hc)
  | hold h => exact trade_withCell (owned _) fun n cell _ hc _ => .rests (rests_hold hc)
  | giveUp h => exact trade_withCell (owned _) fun n cell _ _ _ => .rests rests_giveUp
  | inspect h => exact trade_withCell (owned _) fun n cell _ _ _ => .rests (rests_of_world rfl)
  | reserve h => exact trade_withCell (owned _) fun n cell _ hc ho => trade_reserve control hc ho
  | add h id v =>
    exact trade_withCell (owned _) fun n cell hf hc ho =>
      trade_store control rfl hf hc ho rfl (.inl ⟨rfl, rfl⟩) fun _ _ _ => Registry.insert_eq_ok
  | set h id v =>
    exact trade_withCell (owned _) fun n cell hf hc ho =>
      trade_store control rfl hf hc ho rfl (.inr ⟨rfl, rfl⟩) fun _ _ _ => Registry.fill_eq_ok
  | pop h id => exact trade_withCell (owned _) fun n cell hf hc ho => trade_pop control hf hc ho
  | get h id => exact trade_withCell (owned _) fun n cell _ hc _ => .rests (rests_get hc)
  | contains h id => exact trade_withCell (owned _) fun n cell _ hc _ => .rests (rests_query hc)
  | size h => exact trade_withCell (owned _) fun n cell _ hc _ => .rests (rests_query hc)
  | isEmpty h => exact trade_withCell (owned _) fun n cell _ hc _ => .rests (rests_query hc)
  | cursor h => exact trade_withCell (owned _) fun n cell _ hc _ => .rests (rests_query hc)
  | walk h visit => exact trade_withCell (owned _) fun n cell _ hc _ => .rests (rests_walk hc)
  | release ticket => exact trade_release control
  | dispose serial => exact .rests rests_dispose
  | shelve ticket => exact .rests (rests_of_cells rfl rfl rfl rfl)
  | shelved number => exact .rests (rests_of_world rfl)
  | unshelve number => exact .rests (rests_of_cells rfl rfl rfl rfl)

/-- A handle keeps its cell. -/
theorem exists_cell_of_find? {R : List Thread → List Thread → Prop} {out : CellId → List (Thread × Stake)} {h : Handle}
    (hc : Ledger.Sound R out c.ledger) (hn : c.world.find? h = some n) : ∃ cell, c.world.cells[n]? = some cell := by
  have howners := (hc.tallies n).owners
  have hbound : 0 < c.ledger.boundTo n := List.countP_pos_iff.2 ⟨(h, n), mem_of_find? hn, by simp⟩
  cases found : c.world.cells[n]? with
  | some cell => exact ⟨cell, rfl⟩
  | none =>
    have hvoid : (c.ledger.cellAt n).owners = 0 := by
      rw [Ledger.cellAt, show c.ledger.cells[n]? = none from found]
      rfl
    omega

/-- **Every step trades in one of these ways.** -/
theorem step_trade {R : List Thread → List Thread → Prop} {out : CellId → List (Thread × Stake)}
    (hc : Ledger.Sound R out c.ledger) : c.Trade c.step := by
  unfold step
  split
  · rename_i call next control
    exact trade_perform control fun h n cell hf hcell =>
      hc.owners_ne_zero_of_inUse hcell (.inl ⟨h, mem_of_find? hf⟩)
  · exact .rests (rests_of_log rfl rfl)
  · exact .rests (rests_of_cells rfl rfl rfl rfl)
  · split
    · exact .rests (rests_of_world rfl)
    · exact .rests ((rests_resume (c := { c with stack := _ })).of_cells rfl rfl rfl rfl)
    · exact .rests (rests_of_world rfl)
  · exact .rests (rests_of_world rfl)
  · rename_i n ahead x next control
    exact trade_tearOn control (hc.torn n (by rw [show c.ledger.torn = c.control.torn from rfl, control]; rfl))
  · exact .rests (rests_of_world rfl)
  · exact .rests (rests_of_world rfl)

end Config

end SlotRegistry
