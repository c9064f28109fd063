import SlotRegistry.Proofs.Machine.Enclosing
import SlotRegistry.Proofs.Registry.Scanning
import SlotRegistry.Script.Pending
/-!
# Glances — what a look at a registry shows

A look enters no cell and waits for nothing: it shows size and cursor unless a writer holds the lock.  User code runs
under a writer's lock in one place only, where an add or a set destroys the value that it refused; so this is where a
look shows the registry locked (`glance_eq_none_iff`).  Under a reader's lock it shows the registry as it was when the
walk or the copying began.
-/
namespace SlotRegistry

variable {α : Type}

theorem Registry.size_remove {r : Registry α} {id : SlotId} (h : (r.slot? id).isSome) :
    (r.remove id).size = r.size - 1 := by
  have hcontains : r.slots.contains id = true := contains_eq.trans h
  rw [size, remove, Std.ExtTreeMap.size_erase]
  exact if_pos hcontains

theorem Script.compact_glanceOutline (g : Glance) : (glanceOutline (some g)).compact =
    "IdManager \x7b len: " ++ toString g.size ++ ", last_id: " ++ toString g.cursor.toNat ++ " \x7d" := by
  simp only [glanceOutline, Outline.compact, Outline.compactFields, Outline.commaJoined, Outline.openBrace,
    Outline.closeBrace]
  rw [← String.toList_inj]
  simp

theorem Scope.stake_eq_writing {s : Scope α} {n : CellId} :
    s.stake = some (n, .writing) ↔ ∃ why, s = .rejecting n why := by
  cases s <;> simp [stake]

namespace Cell

variable {cell : Cell α}

theorem glance_of_readable (h : cell.lock.readable = true) :
    cell.glance = some ⟨cell.registry.size, cell.registry.cursor⟩ := by rw [glance, if_pos h]

theorem glance_eq_none : cell.glance = none ↔ ∃ t, t ∈ cell.lock.writers := by
  rw [glance]
  cases cell.lock with
  | shared readers => simp [Lock.readable, Lock.writers]
  | exclusive w => simp [Lock.readable, Lock.writers]

theorem glance_eq_some {g : Glance} (h : cell.glance = some g) : g = ⟨cell.registry.size, cell.registry.cursor⟩ := by
  rw [glance] at h
  split at h
  · exact (Option.some.inj h).symm
  · cases h

theorem readable_of_mem_readers {t : Thread} (h : t ∈ cell.lock.readers) : cell.lock.readable = true := by
  cases hl : cell.lock with
  | shared readers => rfl
  | exclusive w =>
    rw [hl] at h
    cases h

end Cell

namespace Config

open Ledger (Sound)

variable {c o c₀ : Config α} {cell : Cell α} {n : CellId} {h : Handle} {s : Scope α}
  {next : Outcome α → Program α} {rest : List (Frame α)}

/-! ### Who holds the lock -/

/-- **A look shows nothing exactly when a value that was refused is destroyed** by a call on the stack. -/
theorem glance_eq_none_iff (hc : Sound Eq (fun _ => []) c.ledger) (found : c.world.cells[n]? = some cell) :
    cell.glance = none ↔ ∃ why next rest, .call (.rejecting n why) next :: rest <:+ c.stack := by
  have hwriters := (hc.tallies n).writers
  rw [Ledger.cellAt_of_getElem? found, List.append_nil] at hwriters
  rw [Cell.glance_eq_none, hwriters]
  constructor
  · rintro ⟨t, ht⟩
    obtain ⟨s, hmem, hstake⟩ := mem_stakesAt.1 (mem_holding.1 ht)
    obtain ⟨why, rfl⟩ := Scope.stake_eq_writing.1 hstake
    obtain ⟨next, hframe⟩ := exists_frame _ _ hmem
    obtain ⟨pre, rest, hstack⟩ := List.append_of_mem hframe
    exact ⟨why, next, rest, pre, hstack.symm⟩
  · rintro ⟨why, next, rest, hf⟩
    obtain ⟨t, ht⟩ := exists_unfinished c.thread c.stack (hf.mem List.mem_cons_self)
    exact ⟨t, mem_holding.2 (mem_stakesAt.2 ⟨_, ht, rfl⟩)⟩

/-- **Under a reader's lock a look shows size and cursor.** -/
theorem glance_of_reading (hc : Sound Eq (fun _ => []) c.ledger) (found : c.world.cells[n]? = some cell)
    (hf : .call s next ∈ c.stack) (hs : s.stake = some (n, .reading)) :
    cell.glance = some ⟨cell.registry.size, cell.registry.cursor⟩ := by
  have hreaders := (hc.tallies n).readers
  rw [Ledger.cellAt_of_getElem? found, List.append_nil] at hreaders
  obtain ⟨t, ht⟩ := exists_unfinished c.thread c.stack hf
  refine Cell.glance_of_readable (Cell.readable_of_mem_readers (t := t) ?_)
  rw [hreaders]
  exact mem_holding.2 (mem_stakesAt.2 ⟨s, ht, hs⟩)

/-! ### The calls around a look -/

/-- Around `c` an add or a set on the cell `n` destroys the value that it refused. -/
def Refusing (o : Config α) (n : CellId) (c : Config α) : Prop :=
  ∃ c₀ call next why h id v, Encloses o call next (.rejecting n why) c₀ c ∧ call.offer? = some (h, id, v) ∧
    c₀.world.find? h = some n ∧ (why = .taken id ∨ why = .unreserved id) ∧ c₀.step.control = .running v.onDestroy

/-- Around `c` the walk or the get on the cell `n` that `c₀` makes runs its visitor or copies a value. -/
def ReadSince (o : Config α) (n : CellId) (c₀ c : Config α) : Prop :=
  ∃ call next s h, Encloses o call next s c₀ c ∧ s.stake = some (n, .reading) ∧ c₀.world.find? h = some n ∧
    ((∃ visit, call = .walk h visit) ∨ ∃ id, call = .get h id)

theorem refusing_of_frame {why : Refusal} (hc : Reaches o c) (ho : o.stack = [])
    (hf : .call (.rejecting n why) next :: rest <:+ c.stack) : Refusing o n c := by
  obtain ⟨c₀, call, p, -, hencloses, hopens, hruns⟩ := exists_encloses (n := n) hc ho hf rfl
  cases hopens with
  | walks _ hvisit => obtain ⟨_, _, _, _, heq⟩ := hvisit; cases heq
  | refuses offer here cause => exact ⟨c₀, call, next, why, _, _, _, hencloses, offer, here, cause, hruns⟩

theorem readSince_of_frame (hc : Reaches o c) (ho : o.stack = []) (hf : .call s next :: rest <:+ c.stack)
    (hs : s.stake = some (n, .reading)) : ∃ c₀, c₀.stack = rest ∧ ReadSince o n c₀ c := by
  have hin : s.IsInside n := Scope.isInside_iff.2 ⟨.reading, by decide, hs⟩
  obtain ⟨c₀, call, p, hstack, hencloses, hopens, -⟩ := exists_encloses hc ho hf hin
  refine ⟨c₀, hstack, call, next, s, ?_⟩
  cases hopens with
  | walks here hvisit =>
    obtain ⟨_, _, _, _, rfl⟩ := hvisit
    cases hs
    exact ⟨_, hencloses, rfl, here, .inl ⟨_, rfl⟩⟩
  | copies here => cases hs; exact ⟨_, hencloses, rfl, here, .inr ⟨_, rfl⟩⟩
  | refuses | bounces | discards | disposes => cases hs

/-- **While it is shown a registry stays** as it was when the call was made. -/
theorem ReadSince.glance (hread : ReadSince o n c₀ c) (ho : Sound Eq (fun _ => []) o.ledger)
    (found : c.world.cells[n]? = some cell) :
    ∃ cell₀, c₀.world.cells[n]? = some cell₀ ∧
      cell.glance = some ⟨cell₀.registry.size, cell₀.registry.cursor⟩ := by
  obtain ⟨call, next, s, h, hencloses, hs, here, hcall⟩ := hread
  have hsound := hencloses.reaches.sound tracks_eq ho
  obtain ⟨cell₀, found₀⟩ := exists_cell_of_find? hsound here
  have hcell : (c₀.world.cellOf? h).map Prod.fst = some n := by
    rw [World.cellOf?, here, Option.bind_some, found₀]
    rfl
  have hcall : call.entered? c₀.world = some n ∧ call.ticket? = none := by
    rcases hcall with ⟨visit, rfl⟩ | ⟨id, rfl⟩
    · exact ⟨hcell, rfl⟩
    · exact ⟨hcell, rfl⟩
  have hin : s.IsInside n := Scope.isInside_iff.2 ⟨.reading, by decide, hs⟩
  obtain ⟨cell', found', hregistry⟩ := hencloses.hasRegistry ho hin hcall.1 hcall.2 ⟨cell₀, found₀, rfl⟩
  rw [found] at found'
  cases found'
  refine ⟨cell₀, found₀, ?_⟩
  rw [← hregistry]
  exact glance_of_reading (hencloses.extent.reaches.sound tracks_eq hsound) found
    (hencloses.stands.mem List.mem_cons_self) hs

/-- A look at a cell when a release has removed a value, and the code that destroys the value is about to run. -/
theorem glance_of_discarding {ticket : Ticket} {nx : Outcome α → Program α}
    (hc : c₀.control = .running (.call (.release ticket) next)) (hn : ticket.cell = n)
    (hstack : c₀.step.stack = .call (.discarding n) nx :: c₀.stack) (hcells : c.world.cells = c₀.step.world.cells)
    (found : c.world.cells[n]? = some cell) :
    ∃ cell₀ v, c₀.world.cells[n]? = some cell₀ ∧ cell₀.registry.slot? ticket.id = some (.occupied v) ∧
      c₀.step.control = .running v.value.onDestroy ∧ cell.registry.slot? ticket.id = none ∧
      cell.glance = some ⟨cell₀.registry.size - 1, cell₀.registry.cursor⟩ := by
  subst hn
  have hstep : c₀.step = c₀.release ticket next := by rw [step_of_call hc]; rfl
  rw [hstep] at hstack hcells ⊢
  rcases release_cases c₀ ticket next with hsame | ⟨cell₀, v, found₀, free, occupied, hset, -, hruns⟩
  · exact absurd (hsame.symm.trans hstack).symm (List.cons_ne_self _ _)
  rw [hcells, hset, List.getElem?_set_self (List.getElem?_eq_some_iff.1 found₀).1] at found
  cases found
  refine ⟨cell₀, v, found₀, occupied, hruns, Registry.slot?_remove.trans (if_pos rfl), ?_⟩
  rw [← Registry.size_remove (by rw [occupied]; rfl)]
  exact Cell.glance_of_readable (by rw [Cell.addOwner, Cell.withRegistry, free]; rfl)

/-- **What a look shows in every context.**  It is over at once and changes nothing.  It shows the registry locked
exactly when around it an add or a set on the cell destroys the value that it refused, and otherwise how many ids are
present and the cursor.  While a walk or a get shows the registry, these are still what they were when the call was
made; and when a removed value is about to be destroyed its id is gone already. -/
theorem glance_in_every_context {v : Verbosity} {p : Program α} (hr : Reaches (initial (World.empty v) p) c)
    (hc : c.control = .running (.call (.inspect h) next)) (hn : c.world.find? h = some n) :
    ∃ cell g, c.world.cells[n]? = some cell ∧ c.step = c.reply (.glance g) next ∧
      (g = none ↔ Refusing (initial (World.empty v) p) n c) ∧
      (g = none → (Script.glanceOutline g).compact = "IdManager \x7b table: <locked> \x7d") ∧
      (∀ shown, g = some shown →
        shown.size = (SlotId.all.filter cell.registry.contains).length ∧ shown.cursor = cell.registry.cursor ∧
        (Script.glanceOutline g).compact = "IdManager \x7b len: " ++ toString shown.size ++ ", last_id: " ++
          toString shown.cursor.toNat ++ " \x7d") ∧
      (∀ s nx rest, .call s nx :: rest <:+ c.stack → s.stake = some (n, .reading) →
        ∃ c₀, c₀.stack = rest ∧ ReadSince (initial (World.empty v) p) n c₀ c) ∧
      (∀ c₀, ReadSince (initial (World.empty v) p) n c₀ c → ∃ cell₀, c₀.world.cells[n]? = some cell₀ ∧
        g = some ⟨cell₀.registry.size, cell₀.registry.cursor⟩) ∧
      (∀ (c₀ : Config α) (ticket : Ticket) (nx nx' : Outcome α → Program α),
        c₀.control = .running (.call (.release ticket) nx) → ticket.cell = n →
        c₀.step.stack = .call (.discarding n) nx' :: c₀.stack → c.world.cells = c₀.step.world.cells →
        ∃ cell₀ w, c₀.world.cells[n]? = some cell₀ ∧ cell₀.registry.slot? ticket.id = some (.occupied w) ∧
          c₀.step.control = .running w.value.onDestroy ∧ cell.registry.slot? ticket.id = none ∧
          g = some ⟨cell₀.registry.size - 1, cell₀.registry.cursor⟩) := by
  have hnil : Sound Eq (fun _ => []) (initial (World.empty v) p).ledger :=
    Ledger.sound_of_nil tracks_eq rfl rfl rfl rfl
  have hsound := hr.sound tracks_eq hnil
  obtain ⟨cell, found⟩ := exists_cell_of_find? hsound hn
  have hstep : c.step = c.reply (.glance cell.glance) next := by
    rw [step_of_call hc, perform, withCell, World.cellOf?, hn, Option.bind_some, found]
    rfl
  refine ⟨cell, cell.glance, found, hstep, ?_, fun hnone => ?_, fun shown hshown => ?_,
    fun s nx rest hf hs => readSince_of_frame hr rfl hf hs, fun c₀ hread => hread.glance hnil found,
    fun c₀ ticket nx nx' hc₀ hticket hstack hcells => glance_of_discarding hc₀ hticket hstack hcells found⟩
  · rw [glance_eq_none_iff hsound found]
    constructor
    · rintro ⟨why, nx, rest, hf⟩
      exact refusing_of_frame hr rfl hf
    · rintro ⟨c₀, call, nx, why, -, -, -, hencloses, -⟩
      exact ⟨why, nx, c₀.stack, hencloses.stands⟩
  · rw [hnone]
    rfl
  · rw [hshown]
    obtain rfl := Cell.glance_eq_some hshown
    exact ⟨Registry.size_eq_length_filter, rfl, Script.compact_glanceOutline _⟩

/-- While a registry is walked through, another one refuses a value, and the code that destroys the value looks at both.
Then a value is released, and the code that destroys it looks at its registry. -/
def looksAround : Program String :=
  .call (.create (.named "a")) fun _ => .call (.create (.named "b")) fun _ => .call (.reserve (.named "a")) fun _ =>
    .call (.walk (.named "a") fun _ _ _ =>
      .call (.set (.named "b") 7 ⟨"x", .call (.inspect (.named "b")) fun _ =>
        .call (.inspect (.named "a")) fun _ => .idle, .idle⟩) fun _ => .idle) fun _ =>
    .call (.add (.named "a") 5 ⟨"y", .call (.inspect (.named "a")) fun _ => .idle, .idle⟩) fun
      | .added ticket => .call (.release ticket) fun _ => .idle
      | _ => .idle

/-- The look at the registry that refused shows it locked; the one walked through shows one id, and so it does when the
value under the other id has been released. -/
theorem glance_at_two_registries : ∃ (c d e : Config String) (next next' next'' : Outcome String → Program String),
    (Reaches (initial (World.empty .trace) looksAround) c ∧
      c.control = .running (.call (.inspect (.named "b")) next) ∧ c.step.control = .replying (.glance none) next) ∧
    (Reaches (initial (World.empty .trace) looksAround) d ∧
      d.control = .running (.call (.inspect (.named "a")) next') ∧
      d.step.control = .replying (.glance (some ⟨1, 1⟩)) next') ∧
    Reaches (initial (World.empty .trace) looksAround) e ∧
      e.control = .running (.call (.inspect (.named "a")) next'') ∧
      e.step.control = .replying (.glance (some ⟨1, 1⟩)) next'' := by
  have hreach := fun n => reaches_advance n (initial (World.empty .trace) looksAround)
  refine ⟨_, _, _, _, _, _, ⟨hreach 8, rfl, ?_⟩, ⟨hreach 10, rfl, ?_⟩, hreach 19, rfl, ?_⟩
  · obtain ⟨cell, g, -, hstep, hlocked, -⟩ := glance_in_every_context (hreach 8) rfl rfl
    have hrefusing : g = none :=
      hlocked.2 ⟨_, _, _, _, _, _, _, ⟨hreach 7, rfl, .begun, List.suffix_refl _⟩, rfl, rfl, .inr rfl, rfl⟩
    rw [hstep, hrefusing]
    rfl
  · obtain ⟨cell, g, -, hstep, -, -, -, -, hread, -⟩ := glance_in_every_context (hreach 10) rfl rfl
    have hbusy : ∀ {d : Config String}, d.stack ≠ [] → ¬ d.Returned [] := fun hne hreturned => hne hreturned.1
    have hextent : (advance 6 (initial (World.empty .trace) looksAround)).Extent _ :=
      .going (.going (.going .begun (hbusy (List.cons_ne_nil _ _))) (hbusy (List.cons_ne_nil _ _)))
        (hbusy (List.cons_ne_nil _ _))
    obtain ⟨cell₀, found₀, hg⟩ :=
      hread _ ⟨_, _, _, _, ⟨hreach 6, rfl, hextent, ⟨[_], rfl⟩⟩, rfl, rfl, .inl ⟨_, rfl⟩⟩
    cases found₀
    rw [hstep, hg]
    rfl
  · obtain ⟨cell, g, -, hstep, -, -, -, -, -, hreleased⟩ := glance_in_every_context (hreach 19) rfl rfl
    obtain ⟨cell₀, w, found₀, -, -, -, hg⟩ :=
      hreleased (advance 18 (initial (World.empty .trace) looksAround)) ⟨5, 0⟩ _ _ rfl rfl rfl rfl
    cases found₀
    rw [hstep, hg]
    rfl

end Config

end SlotRegistry
