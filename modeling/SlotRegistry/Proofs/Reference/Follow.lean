import SlotRegistry.Proofs.Reference.Requests
/-!
# Follow — the machine follows the reference, request by request

A world follows the managers when it has their handles and the registry of every live cell shows its table
(`World.Follows`).  Each request comes to what the reference says of it, and the world it leaves follows the managers
that are left (`Follows.answered`).
-/
namespace SlotRegistry

variable {α : Type}

/-- Between two requests the world is as the managers say. -/
structure World.Follows (w : World α) (m : Managers α) : Prop where
  quiet : w.Quiet
  handles : w.handles = m.handles
  length : w.cells.length = m.tables.length
  shows : ∀ (n : CellId) (cell : Cell α) (t : Table α), m.Live n → w.cells[n]? = some cell → m.tables[n]? = some t →
    cell.registry.Shows t
  plain : ∀ (n : CellId) (cell : Cell α), w.cells[n]? = some cell → cell.owners ≠ 0 → cell.registry.Plain

/-- A request comes to what the reference says, and leaves the managers as it says. -/
def Answered (w : World α) (m : Managers α) (t : Thread) (r : Request α) : Prop :=
  ∃ x w', Serves w t r.call x w' ∧ (m.perform r).1.Shows x ∧ w'.Follows (m.perform r).2

section

variable {w w' : World α} {m : Managers α} {t : Thread} {r : Request α} {h : Handle} {n : CellId} {cell : Cell α}
  {table table' : Table α} {id : SlotId} {x : Outcome α} {reply : Reply α} {reg : Registry (Stored α)}

theorem follows_empty (v : Verbosity) : (World.empty v : World α).Follows .empty := by
  refine ⟨quiet_empty v, rfl, rfl, fun n cell t hlive => ?_, fun n cell hc => by cases hc⟩
  obtain ⟨b, hb, -⟩ := hlive
  cases hb

/-- What a world is left with follows the managers when the live cells show their tables. -/
theorem follows_of_leaves {u : World α} {m' : Managers α} (hq : w'.Quiet) (leaves : u.Leaves w')
    (handles : w'.handles = m'.handles) (length : u.cells.length = m'.tables.length)
    (shows : ∀ (n : CellId) (cell : Cell α) (t : Table α), m'.Live n → u.cells[n]? = some cell →
      m'.tables[n]? = some t → cell.registry.Shows t)
    (plain : ∀ (n : CellId) (cell : Cell α), u.cells[n]? = some cell → cell.owners ≠ 0 → cell.registry.Plain) :
    w'.Follows m' := by
  refine ⟨hq, handles, leaves.length.trans length, fun n cell' t hlive hc ht => ?_, fun n cell' hc ho => ?_⟩
  · have ho : cell'.owners ≠ 0 := hq.owners hc (by rw [handles]; exact hlive)
    obtain ⟨cell, hcell, -, hr⟩ := leaves.registry n cell' hc ho
    rw [hr]
    exact shows n cell t hlive hcell ht
  · obtain ⟨cell, hcell, ho', hr⟩ := leaves.registry n cell' hc ho
    rw [hr]
    exact plain n cell hcell ho'

namespace World.Follows

/-- A handle that belongs to no cell has no table; one that does belongs to a live one. -/
theorem lookup (hw : w.Follows m) (h : Handle) :
    (w.cellOf? h = none ∧ m.table? h = none) ∨
    ∃ n cell table, Ready w h n cell ∧ m.table? h = some (n, table) ∧ cell.registry.Shows table := by
  have hfind : m.handles.lookup h = w.find? h := by rw [World.find?, hw.handles]
  unfold World.cellOf? Managers.table?
  rw [hfind]
  cases hf : w.find? h with
  | none => exact .inl ⟨rfl, rfl⟩
  | some n =>
    rw [Option.bind_some, Option.bind_some]
    have hlive : m.Live n := ⟨(h, n), by rw [← hw.handles]; exact Config.mem_of_find? hf, rfl⟩
    cases hc : w.cells[n]? with
    | none =>
      have hn := List.getElem?_eq_none_iff.1 hc
      rw [List.getElem?_eq_none_iff.2 (by rw [← hw.length]; exact hn)]
      exact .inl ⟨rfl, rfl⟩
    | some cell =>
      have hn : n < m.tables.length := by rw [← hw.length]; exact (List.getElem?_eq_some_iff.1 hc).1
      have ht : m.tables[n]? = some m.tables[n] := List.getElem?_eq_getElem hn
      have hcell : w.cellOf? h = some (n, cell) := by rw [World.cellOf?, hf, Option.bind_some, hc]; rfl
      refine .inr ⟨n, cell, m.tables[n], hw.quiet.ready hcell, ?_, hw.shows n cell _ hlive hc ht⟩
      rw [ht]
      rfl

theorem answered_same (hw : w.Follows m) (hy : Yields w t r.call x w.cells) (hp : m.perform r = (reply, m))
    (hx : reply.Shows x) : Answered w m t r := by
  obtain ⟨w', hs, handles, cells⟩ := hy
  refine ⟨x, w', hs, by rw [hp]; exact hx, ?_⟩
  rw [hp]
  refine ⟨hs.quiet hw.quiet, handles.trans hw.handles, by rw [cells]; exact hw.length, fun n cell t hlive hc ht => ?_,
    fun n cell hc ho => ?_⟩
  · exact hw.shows n cell t hlive (cells ▸ hc) ht
  · exact hw.plain n cell (cells ▸ hc) ho

/-- A request that writes one registry; if it is live, its table with it. -/
theorem answered_write {m' : Managers α} (hw : w.Follows m)
    (hy : Yields w t r.call x (w.cells.set n (cell.withRegistry reg))) (found : w.cells[n]? = some cell)
    (hp : m.perform r = (reply, m')) (hx : reply.Shows x) (handles : m'.handles = m.handles)
    (length : m'.tables.length = m.tables.length) (others : ∀ k, n ≠ k → m'.tables[k]? = m.tables[k]?)
    (here : ∀ t, m.Live n → m'.tables[n]? = some t → reg.Shows t) (plain : reg.Plain) : Answered w m t r := by
  obtain ⟨w', hs, handles', cells⟩ := hy
  refine ⟨x, w', hs, by rw [hp]; exact hx, ?_⟩
  have hn := (List.getElem?_eq_some_iff.1 found).1
  have hlive : ∀ k, m'.Live k → m.Live k := fun k ⟨b, hb, hk⟩ => ⟨b, handles ▸ hb, hk⟩
  rw [hp]
  refine ⟨hs.quiet hw.quiet, (handles'.trans hw.handles).trans handles.symm, ?_, fun k other t hk hc ht => ?_,
    fun k other hc ho => ?_⟩
  · rw [cells, List.length_set, length]
    exact hw.length
  · rw [cells] at hc
    by_cases hnk : n = k
    · subst hnk
      rw [List.getElem?_set_self hn] at hc
      cases hc
      exact here t (hlive n hk) ht
    · rw [List.getElem?_set_ne hnk] at hc
      exact hw.shows k other t (hlive k hk) hc (by rw [← others k hnk]; exact ht)
  · rw [cells] at hc
    by_cases hnk : n = k
    · subst hnk
      rw [List.getElem?_set_self hn] at hc
      cases hc
      exact plain
    · rw [List.getElem?_set_ne hnk] at hc
      exact hw.plain k other hc ho

theorem answered_put (hw : w.Follows m) (hy : Yields w t r.call x (w.cells.set n (cell.withRegistry reg)))
    (found : w.cells[n]? = some cell) (hp : m.perform r = (reply, m.put n table')) (hx : reply.Shows x)
    (shows : reg.Shows table') : Answered w m t r := by
  have hn : n < m.tables.length := by rw [← hw.length]; exact (List.getElem?_eq_some_iff.1 found).1
  refine hw.answered_write hy found hp hx rfl List.length_set (fun k hk => List.getElem?_set_ne hk) (fun t _ ht => ?_)
    shows.plain
  rw [Managers.put, List.getElem?_set_self hn] at ht
  cases ht
  exact shows

end World.Follows

theorem withTable_of_some {act : CellId → Table α → Reply α × Managers α} (ht : m.table? h = some (n, table)) :
    m.withTable h act = act n table := by rw [Managers.withTable, ht]

theorem withTable_of_none {act : CellId → Table α → Reply α × Managers α} (ht : m.table? h = none) :
    m.withTable h act = (.noHandle, m) := by rw [Managers.withTable, ht]

namespace World.Follows

/-- A request for the registry of a handle. -/
theorem answered_of_handle (hw : w.Follows m) (h : Handle) {act : CellId → Table α → Reply α × Managers α}
    {enter : Config α → (Outcome α → Program α) → CellId → Cell α → Config α}
    (hcall : ∀ (c : Config α) next, c.perform next r.call = c.withCell h next (enter c next))
    (hp : m.perform r = m.withTable h act)
    (here : ∀ n cell table, Ready w h n cell → cell.registry.Shows table → m.perform r = act n table →
      Answered w m t r) : Answered w m t r := by
  rcases hw.lookup h with ⟨hc, ht⟩ | ⟨n, cell, table, hr, ht, hshows⟩
  · rw [withTable_of_none ht] at hp
    exact hw.answered_same (yields_noHandle hc hcall) hp .noHandle
  · rw [withTable_of_some ht] at hp
    exact here n cell table hr hshows hp

/-! ### Requests that write -/

/-- A request that cell and table refuse for the same cause, or both fulfil. -/
theorem answered_settle (hw : w.Follows m) {β γ : Type} {R : β → γ → Prop} {e : Except Refusal β} {e' : Except Refusal γ}
    {f : γ → Reply α × Table α} (hboth : Both R e e') (found : w.cells[n]? = some cell)
    (hp : m.perform r = m.settle n (e'.map f))
    (refused : ∀ why, e = .error why → Yields w t r.call (.refused why) w.cells)
    (fulfilled : ∀ b c, e = .ok b → R b c → ∃ x reg, Yields w t r.call x (w.cells.set n (cell.withRegistry reg)) ∧
      (f c).1.Shows x ∧ reg.Shows (f c).2) : Answered w m t r := by
  cases hboth with
  | refused why => exact hw.answered_same (refused why rfl) hp (.refused why)
  | fulfilled h =>
    obtain ⟨x, reg, hy, hx, hshows⟩ := fulfilled _ _ rfl h
    exact hw.answered_put hy found hp hx hshows

theorem answered_reserve (hw : w.Follows m) (h : Handle) : Answered w m t (.reserve h) := by
  refine hw.answered_of_handle h (fun _ _ => rfl) rfl fun n cell table hr hshows hp => ?_
  refine hw.answered_settle hshows.reserve hr.found hp (fun why hreg => yields_reserve_error hr hreg) ?_
  rintro ⟨id, reg⟩ ⟨id', table'⟩ hreg ⟨heq, hshows'⟩
  cases heq
  exact ⟨_, reg, yields_reserve_ok hr hreg, .reserved _, hshows'⟩

theorem answered_add (hw : w.Follows m) (h : Handle) (id : SlotId) (v : α) : Answered w m t (.add h id v) := by
  refine hw.answered_of_handle h (fun _ _ => rfl) rfl fun n cell table hr hshows hp => ?_
  have hboth := hshows.insert id (s := ⟨w.handed, .plain v⟩) rfl
  refine hw.answered_settle hboth hr.found hp
    (fun why hreg => yields_store_error (fun n => .added ⟨id, n⟩) hr hreg fun _ _ => rfl)
    fun reg table' hreg hshows' => ?_
  exact ⟨_, reg, yields_store_ok (fun n => .added ⟨id, n⟩) hr hreg fun _ _ => rfl, .added _, hshows'⟩

theorem answered_set (hw : w.Follows m) (h : Handle) (id : SlotId) (v : α) : Answered w m t (.set h id v) := by
  refine hw.answered_of_handle h (fun _ _ => rfl) rfl fun n cell table hr hshows hp => ?_
  have hboth := hshows.fill id (s := ⟨w.handed, .plain v⟩) rfl
  refine hw.answered_settle hboth hr.found hp (fun why hreg => yields_store_error (fun _ => .done) hr hreg fun _ _ => rfl)
    fun reg table' hreg hshows' => ?_
  exact ⟨_, reg, yields_store_ok (fun _ => .done) hr hreg fun _ _ => rfl, .done, hshows'⟩

theorem answered_pop (hw : w.Follows m) (h : Handle) (id : SlotId) : Answered w m t (.pop h id) := by
  refine hw.answered_of_handle h (fun _ _ => rfl) rfl fun n cell table hr hshows hp => ?_
  refine hw.answered_settle (hshows.take id) hr.found hp (fun why hreg => yields_pop_error hr hreg) ?_
  rintro ⟨s, reg⟩ ⟨v, table'⟩ hreg ⟨hv, hshows'⟩
  cases hv
  exact ⟨_, reg, yields_pop_ok hr hreg, .popped _ _, hshows'⟩

theorem answered_release (hw : w.Follows m) (ticket : Ticket) : Answered w m t (.release ticket) := by
  cases hc : w.cells[ticket.cell]? with
  | none =>
    have ht : m.tables[ticket.cell]? = none :=
      List.getElem?_eq_none_iff.2 (by rw [← hw.length]; exact List.getElem?_eq_none_iff.1 hc)
    refine hw.answered_same (yields_release_gone (by rw [hc]; nofun)) ?_ .done
    rw [Managers.perform, Managers.release, ht]
  | some cell =>
    have hn : ticket.cell < m.tables.length := by rw [← hw.length]; exact (List.getElem?_eq_some_iff.1 hc).1
    have ht : m.tables[ticket.cell]? = some m.tables[ticket.cell] := List.getElem?_eq_getElem hn
    by_cases hlive : m.Live ticket.cell
    · have hshows := hw.shows _ cell _ hlive hc ht
      have ho := hw.quiet.owners hc (by rw [hw.handles]; exact hlive)
      refine hw.answered_put (yields_release hw.quiet hc ho hshows.plain) hc ?_ .done hshows.remove
      rw [Managers.perform, Managers.release, ht]
      simp only [if_pos hlive]
    · have hp : m.perform (.release ticket) = (.done, m) := by
        rw [Managers.perform, Managers.release, ht]
        simp only [if_neg hlive]
      by_cases ho : cell.owners = 0
      · refine hw.answered_same (yields_release_gone fun other h => ?_) hp .done
        rw [hc] at h
        cases h
        exact ho
      · have hplain := hw.plain _ cell hc ho
        exact hw.answered_write (yields_release hw.quiet hc ho hplain) hc hp .done rfl rfl (fun _ _ => rfl)
          (fun _ h => absurd h hlive) hplain.remove

/-! ### Requests that answer -/

theorem answered_query (hw : w.Follows m) {answer : Registry (Stored α) → Outcome α} {reply : Table α → Reply α}
    (hcall : ∀ (c : Config α) next, c.perform next r.call =
      c.withCell h next fun n cell => c.query n cell answer next)
    (hp : m.perform r = m.withTable h fun _ t => (reply t, m))
    (hx : ∀ (reg : Registry (Stored α)) (t : Table α), reg.Shows t → (reply t).Shows (answer reg)) :
    Answered w m t r := by
  refine hw.answered_of_handle h hcall hp fun n cell table hr hshows hp => ?_
  exact hw.answered_same (yields_query hr hcall) hp (hx _ _ hshows)

theorem payload?_eq {table : Table α} (hs : cell.registry.Shows table) (id : SlotId) :
    cell.payload? id = table.get? id := hs.get?

theorem answered_get (hw : w.Follows m) (h : Handle) (id : SlotId) : Answered w m t (.get h id) := by
  refine hw.answered_of_handle h (fun _ _ => rfl) rfl fun n cell table hr hshows hp => ?_
  refine hw.answered_same (yields_get hr hshows.plain) hp ?_
  rw [payload?_eq hshows]
  exact .found _

/-- A walk shows the entries, whatever their order. -/
theorem answered_walk (hw : w.Follows m) (h : Handle) (goesOn : Array (Visit α) → SlotId → Option α → Bool) :
    Answered w m t (.walk h goesOn) := by
  refine hw.answered_of_handle h (fun _ _ => rfl) rfl fun n cell table hr hshows hp => ?_
  refine hw.answered_same (yields_walk hr) hp (.toured goesOn ?_)
  simp only [payload?_eq hshows]
  exact hshows.ids_perm.map _

/-! ### Requests about handles -/

theorem answered_giveUp (hw : w.Follows m) (h : Handle) : Answered w m t (.giveUp h) := by
  refine hw.answered_of_handle h (fun _ _ => rfl) rfl fun n cell table hr hshows hp => ?_
  have hs := serves_giveUp (t := t) hr hshows.plain
  refine ⟨.done, _, hs, ?_⟩
  rw [hp]
  refine ⟨.done, follows_of_leaves (u := w.unbind h) (hs.quiet hw.quiet) World.leaves_letGo ?_ hw.length ?_ hw.plain⟩
  · rw [World.handles_letGo, World.unbind, hw.handles]
    rfl
  · rintro k other table ⟨b, hb, hk⟩ hc ht
    exact hw.shows k other table ⟨b, List.mem_of_mem_filter hb, hk⟩ hc ht

theorem live_of_bind {k : CellId} (hk : (m.bind h n).Live k) : n = k ∨ m.Live k := by
  obtain ⟨b, hb, hbk⟩ := hk
  rcases List.mem_cons.1 hb with rfl | hb
  · exact .inl hbk
  · exact .inr ⟨b, List.mem_of_mem_filter hb, hbk⟩

theorem plain_of_find? (hw : w.Follows m) {k : CellId} {other : Cell α} (hf : w.find? h = some k)
    (hc : w.cells[k]? = some other) : other.registry.Plain :=
  hw.plain k other hc (hw.quiet.owners hc ⟨(h, k), Config.mem_of_find? hf, rfl⟩)

theorem answered_share (hw : w.Follows m) (source target : Handle) : Answered w m t (.share source target) := by
  refine hw.answered_of_handle source (fun _ _ => rfl) rfl fun n cell table hr hshows hp => ?_
  have hs := serves_share (t := t) target hr (fun k other => hw.plain_of_find?)
  have hleaves : w.Leaves ((w.put n cell.addOwner).rebind target n) :=
    (World.leaves_put (b := cell.addOwner) hr.found fun _ => ⟨hr.owners, rfl⟩).trans leaves_rebind
  have hlive : m.Live n :=
    ⟨(source, n), by rw [← hw.handles]; exact Config.mem_of_find? (Config.cellOf?_eq_some hr.here).1, rfl⟩
  refine ⟨.done, _, hs, ?_⟩
  rw [hp]
  refine ⟨.done, follows_of_leaves (hs.quiet hw.quiet) hleaves ?_ hw.length (fun k other table hk => ?_) hw.plain⟩
  · rw [handles_rebind]
    exact congrArg (fun handles => (target, n) :: handles.filter fun b => b.1 ≠ target) hw.handles
  · rcases live_of_bind hk with rfl | hk
    · exact hw.shows n other table hlive
    · exact hw.shows k other table hk

theorem answered_create (hw : w.Follows m) (h : Handle) : Answered w m t (.create h) := by
  have hs := serves_create (t := t) (w := w) (h := h) (fun k other => hw.plain_of_find?)
  have hold : ∀ k other, w.create.2.cells[k]? = some other →
      k < w.cells.length ∧ w.cells[k]? = some other ∨ k = w.cells.length ∧ other = Cell.fresh := by
    intro k other hc
    change (w.cells ++ [Cell.fresh])[k]? = some other at hc
    rw [List.getElem?_append] at hc
    split at hc
    · rename_i hk
      exact .inl ⟨hk, hc⟩
    · rename_i hk
      have hlen := (List.getElem?_eq_some_iff.1 hc).1
      rw [List.length_singleton] at hlen
      exact .inr ⟨by omega, List.mem_singleton.1 (List.mem_of_getElem? hc)⟩
  refine ⟨.done, _, hs, .done,
    follows_of_leaves (hs.quiet hw.quiet) leaves_rebind ?_ ?_ (fun k other table hk hc ht => ?_)
    (fun k other hc ho => ?_)⟩
  · rw [handles_rebind]
    change (h, w.cells.length) :: w.handles.filter _ = (h, m.tables.length) :: m.handles.filter _
    rw [hw.handles, hw.length]
  · change (w.cells ++ [Cell.fresh]).length = (m.tables ++ [Table.empty]).length
    rw [List.length_append, List.length_append, hw.length]
    rfl
  · change (m.tables ++ [Table.empty])[k]? = some table at ht
    rcases hold k other hc with ⟨hlt, hc⟩ | ⟨rfl, rfl⟩
    · rw [List.getElem?_append_left (by rw [← hw.length]; exact hlt)] at ht
      rcases live_of_bind hk with rfl | hk
      · exact absurd hlt (by rw [hw.length]; exact Nat.lt_irrefl _)
      · exact hw.shows k other table hk hc ht
    · rw [hw.length, List.getElem?_append_right (Nat.le_refl _), Nat.sub_self] at ht
      cases ht
      exact Registry.shows_empty
  · rcases hold k other hc with ⟨-, hc⟩ | ⟨-, rfl⟩
    · exact hw.plain k other hc ho
    · exact Registry.shows_empty.plain

/-- **Every request comes to what the reference says, and leaves a world that follows it.** -/
theorem answered (hw : w.Follows m) (t : Thread) (r : Request α) : Answered w m t r := by
  cases r with
  | create h => exact hw.answered_create h
  | share source target => exact hw.answered_share source target
  | giveUp h => exact hw.answered_giveUp h
  | reserve h => exact hw.answered_reserve h
  | add h id v => exact hw.answered_add h id v
  | set h id v => exact hw.answered_set h id v
  | pop h id => exact hw.answered_pop h id
  | get h id => exact hw.answered_get h id
  | contains h id =>
    refine hw.answered_query (fun _ _ => rfl) rfl (fun reg t hs => ?_)
    rw [hs.contains]
    exact .flag _
  | size h =>
    refine hw.answered_query (fun _ _ => rfl) rfl (fun reg t hs => ?_)
    rw [hs.size]
    exact .count _
  | isEmpty h =>
    refine hw.answered_query (fun _ _ => rfl) rfl (fun reg t hs => ?_)
    rw [hs.isEmpty]
    exact .flag _
  | cursor h =>
    refine hw.answered_query (fun _ _ => rfl) rfl (fun reg t hs => ?_)
    rw [hs.cursor]
    exact .cursor _
  | walk h goesOn => exact hw.answered_walk h goesOn
  | release ticket => exact hw.answered_release ticket

end World.Follows

end

end SlotRegistry
