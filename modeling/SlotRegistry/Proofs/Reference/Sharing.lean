import SlotRegistry.Proofs.Reference.Account
import SlotRegistry.Proofs.Reference.Session
/-!
# Sharing — the accounts of a registry that threads share

Threads that share a registry make their requests in any order; each is one step for the others.  What a request did to
an id of the registry is read off what came of it (`Served.deed?`), and the deeds of a session are done to the slots one
after the other (`World.Follows.doings`), so they make an account of every id.
-/
namespace SlotRegistry

variable {α : Type}

/-- The slots of a registry, without the numbers and the user code of the values; a registry that is gone, or does not
exist, has none. -/
def World.slots (w : World α) (n : CellId) (id : SlotId) : Option (Slot α) :=
  (w.cells[n]?).bind fun cell => if cell.owners = 0 then none else (cell.registry.slot? id).map Slot.bare

/-- What a request did to an id of a registry.  A release did nothing unless something was there to be freed. -/
def Served.deed? (n : CellId) (s : Served α) : Option (SlotId × Deed α) :=
  match s.request, s.outcome with
  | .reserve _, .reserved ticket => if ticket.cell = n then some (ticket.id, .reserved) else none
  | .add _ _ v, .added ticket => if ticket.cell = n then some (ticket.id, .added v) else none
  | .set h id v, .done => if s.before.find? h = some n then some (id, .set v) else none
  | .pop h id, .popped _ v => if s.before.find? h = some n then some (id, .popped v) else none
  | .release ticket, .done =>
    if ticket.cell = n ∧ (s.before.slots n ticket.id).isSome then some (ticket.id, .released) else none
  | _, _ => none

/-- What the requests of a session did to the ids of a registry. -/
def deeds (n : CellId) (served : List (Served α)) : List (SlotId × Deed α) := served.filterMap (Served.deed? n)

theorem deeds_cons (n : CellId) (s : Served α) (served : List (Served α)) :
    deeds n (s :: served) = (s.deed? n).toList ++ deeds n served := by
  unfold deeds
  cases h : s.deed? n with
  | none => rw [List.filterMap_cons_none h]; rfl
  | some e => rw [List.filterMap_cons_some h]; rfl

theorem deeds_append (n : CellId) (served rest : List (Served α)) :
    deeds n (served ++ rest) = deeds n served ++ deeds n rest := List.filterMap_append

/-! ### The reference -/

namespace Managers

variable {m : Managers α} {n k : CellId} {h : Handle} {table table' : Table α} {r : Request α} {id : SlotId}

def slots (m : Managers α) (n : CellId) (id : SlotId) : Option (Slot α) := (m.tables[n]?).bind fun t => t.slots id

/-- The registry is not gone: a handle belongs to it, or it does not exist yet. -/
def Stays (m : Managers α) (n : CellId) : Prop := m.Live n ∨ m.tables.length ≤ n

theorem table?_eq_some (ht : m.table? h = some (n, table)) :
    m.handles.lookup h = some n ∧ m.tables[n]? = some table := by
  unfold table? at ht
  obtain ⟨k, hk, ht⟩ := Option.bind_eq_some_iff.1 ht
  obtain ⟨t, ht, heq⟩ := Option.map_eq_some_iff.1 ht
  cases heq
  exact ⟨hk, ht⟩

theorem slots_of_table (ht : m.tables[n]? = some table) : m.slots n = table.slots := by
  funext id
  rw [slots, ht, Option.bind_some]

theorem slots_put (ht : m.tables[k]? = some table) :
    (m.put k table').slots n = if k = n then table'.slots else m.slots n := by
  funext id
  unfold slots put
  by_cases hk : k = n
  · subst hk
    rw [if_pos rfl, List.getElem?_set_self (List.getElem?_eq_some_iff.1 ht).1, Option.bind_some]
  · rw [if_neg hk, List.getElem?_set_ne hk]

theorem withTable_induct {P : Managers α → Prop} {act : CellId → Table α → Reply α × Managers α} (same : P m)
    (acts : ∀ n t, m.table? h = some (n, t) → P (act n t).2) : P (m.withTable h act).2 := by
  unfold withTable
  split
  · exact same
  · exact acts _ _ ‹_›

theorem stays_settle {e : Except Refusal (Reply α × Table α)} (hn : (m.settle k e).2.Stays n) : m.Stays n := by
  cases e with
  | error why => exact hn
  | ok p => exact hn.imp_right fun h => by rwa [settle, put, List.length_set] at h

theorem stays_of_bind (hk : m.Stays k) (hn : (m.bind h k).Stays n) : m.Stays n := by
  rcases hn with ⟨b, hb, hbn⟩ | hlen
  · rcases List.mem_cons.1 hb with rfl | hb
    · exact hbn ▸ hk
    · exact .inl ⟨b, List.mem_of_mem_filter hb, hbn⟩
  · exact .inr hlen

/-- What is not gone after a request was not gone before. -/
theorem stays_of_perform (hn : (m.perform r).2.Stays n) : m.Stays n := by
  have write : ∀ (h : Handle) (e : CellId → Table α → Except Refusal (Reply α × Table α)),
      (m.withTable h fun n t => m.settle n (e n t)).2.Stays n → m.Stays n := fun h e =>
    withTable_induct (P := fun m' => m'.Stays n → m.Stays n) id fun k t _ => stays_settle
  have read : ∀ (h : Handle) (reply : CellId → Table α → Reply α),
      (m.withTable h fun n t => (reply n t, m)).2.Stays n → m.Stays n := fun h reply =>
    withTable_induct (P := fun m' => m'.Stays n → m.Stays n) id fun k t _ => id
  cases r with
  | create h =>
    rcases hn with ⟨b, hb, hbn⟩ | hlen
    · rcases List.mem_cons.1 hb with rfl | hb
      · exact .inr (Nat.le_of_eq hbn)
      · exact .inl ⟨b, List.mem_of_mem_filter hb, hbn⟩
    · refine .inr (Nat.le_trans (Nat.le_add_right _ 1) ?_)
      change (m.tables ++ [Table.empty]).length ≤ n at hlen
      rwa [List.length_append] at hlen
  | share source target =>
    refine withTable_induct (P := fun m' => m'.Stays n → m.Stays n) id (fun k t ht => ?_) hn
    exact stays_of_bind (.inl ⟨(source, k), Config.mem_of_lookup (table?_eq_some ht).1, rfl⟩)
  | giveUp h =>
    refine withTable_induct (P := fun m' => m'.Stays n → m.Stays n) id (fun k t ht => ?_) hn
    exact Or.imp_left fun ⟨b, hb, hbn⟩ => ⟨b, List.mem_of_mem_filter hb, hbn⟩
  | reserve h => exact write h _ hn
  | add h id v => exact write h _ hn
  | set h id v => exact write h _ hn
  | pop h id => exact write h _ hn
  | get h id => exact read h _ hn
  | contains h id => exact read h _ hn
  | size h => exact read h _ hn
  | isEmpty h => exact read h _ hn
  | cursor h => exact read h _ hn
  | walk h goesOn => exact read h _ hn
  | release ticket =>
    change (m.release ticket).Stays n at hn
    unfold release at hn
    split at hn
    · exact hn
    · split at hn
      · exact hn.imp_right fun h => by rwa [put, List.length_set] at h
      · exact hn

theorem slots_create : (m.perform (.create h)).2.slots n = m.slots n := by
  funext id
  change ((m.tables ++ [Table.empty])[n]?).bind _ = (m.tables[n]?).bind _
  rw [List.getElem?_append]
  split
  · rfl
  · rename_i hn
    rw [List.getElem?_eq_none_iff.2 (Nat.not_lt.1 hn), Option.bind_none]
    cases n - m.tables.length <;> rfl

theorem slots_release_ne {ticket : Ticket} (hn : ticket.cell ≠ n) : (m.release ticket).slots n = m.slots n := by
  unfold release
  split
  · rfl
  · split
    · rw [slots_put ‹_›, if_neg hn]
    · rfl

theorem slots_release {ticket : Ticket} (hn : m.Stays ticket.cell) :
    (m.release ticket).slots ticket.cell = fun id => if ticket.id = id then none else m.slots ticket.cell id := by
  unfold release
  cases ht : m.tables[ticket.cell]? with
  | none =>
    have hnone : m.slots ticket.cell = fun _ => none := by
      funext id
      rw [slots, ht, Option.bind_none]
    simp only [hnone, ite_self]
  | some table =>
    have hlive : m.Live ticket.cell :=
      hn.resolve_right (Nat.not_le.2 (List.getElem?_eq_some_iff.1 ht).1)
    simp only [if_pos hlive]
    rw [slots_put ht, if_pos rfl, slots_of_table ht]
    rfl

theorem doings_put {d : Deed α} {b : Option (Slot α)} (ht : m.tables[k]? = some table)
    (turn : Turn (table.slots id) d b) (hslots : table'.slots = (table.put id b).slots) :
    Doings (m.slots n) (if k = n then some (id, d) else none).toList ((m.put k table').slots n) := by
  rw [slots_put ht]
  by_cases hk : k = n
  · subst hk
    rw [if_pos rfl, if_pos rfl, slots_of_table ht, hslots]
    exact .cons turn (.nil _)
  · rw [if_neg hk, if_neg hk]
    exact .nil _

end Managers

/-! ### Requests -/

section

variable {w w' : World α} {m : Managers α} {t : Thread} {r : Request α} {x : Outcome α} {n : CellId} {h : Handle}
  {id : SlotId} {served rest : List (Served α)}

theorem World.Follows.slots (hw : w.Follows m) (hn : m.Stays n) : w.slots n = m.slots n := by
  rcases hn with hlive | hlen
  · obtain ⟨cell, table, hc, ht, hshows⟩ := hw.live hlive
    have ho : cell.owners ≠ 0 := hw.quiet.owners hc (by rw [hw.handles]; exact hlive)
    funext id
    rw [World.slots, hc, Option.bind_some, if_neg ho, hshows.slots, m.slots_of_table ht]
  · funext id
    rw [World.slots, Managers.slots, List.getElem?_eq_none_iff.2 hlen,
      List.getElem?_eq_none_iff.2 (by rw [hw.length]; exact hlen)]
    rfl

theorem World.Follows.find? (hw : w.Follows m) (h : Handle) : w.find? h = m.handles.lookup h := by
  rw [World.find?, hw.handles]

theorem doings_of_same {a b : SlotId → Option (Slot α)} {e : Option (SlotId × Deed α)} (he : e = none) (hab : b = a) :
    Doings a e.toList b := by
  rw [he, hab]
  exact .nil a

/-- A request for the table of a handle: it is refused for want of a handle, or acts. -/
theorem doings_withTable {act : CellId → Table α → Reply α × Managers α} {e : Option (SlotId × Deed α)}
    (hnone : x = .noHandle → e = none) (hx : (m.withTable h act).1.Shows x)
    (hact : ∀ k table, m.handles.lookup h = some k → m.tables[k]? = some table → (act k table).1.Shows x →
      Doings (m.slots n) e.toList ((act k table).2.slots n)) :
    Doings (m.slots n) e.toList ((m.withTable h act).2.slots n) := by
  cases ht : m.table? h with
  | none =>
    rw [withTable_of_none ht] at hx ⊢
    cases hx
    exact doings_of_same (hnone rfl) rfl
  | some p =>
    obtain ⟨k, table⟩ := p
    rw [withTable_of_some ht] at hx ⊢
    obtain ⟨hl, ht⟩ := Managers.table?_eq_some ht
    exact hact k table hl ht hx

theorem doings_settle {β : Type} {k : CellId} {e : Except Refusal β} {f : β → Reply α × Table α}
    {deed : Option (SlotId × Deed α)} (hx : (m.settle k (e.map f)).1.Shows x)
    (hrefused : ∀ why, x = .refused why → deed = none)
    (hok : ∀ b, e = .ok b → (f b).1.Shows x → Doings (m.slots n) deed.toList ((m.put k (f b).2).slots n)) :
    Doings (m.slots n) deed.toList ((m.settle k (e.map f)).2.slots n) := by
  cases e with
  | error why =>
    cases hx
    exact doings_of_same (hrefused why rfl) rfl
  | ok b => exact hok b rfl hx

namespace World.Follows

theorem doings_reserve (hx : (m.perform (.reserve h)).1.Shows x) :
    Doings (m.slots n) (Served.deed? n ⟨w, t, .reserve h, x⟩).toList ((m.perform (.reserve h)).2.slots n) := by
  refine doings_withTable (fun h => by subst h; rfl) hx fun k table hl ht hx => ?_
  refine doings_settle hx (fun why h => by subst h; rfl) fun ⟨id, table'⟩ hok hx => ?_
  obtain ⟨habsent, rfl⟩ := Table.reserve_eq_ok hok
  cases hx
  exact Managers.doings_put ht (habsent ▸ .reserved) rfl

theorem doings_add {v : α} (hx : (m.perform (.add h id v)).1.Shows x) :
    Doings (m.slots n) (Served.deed? n ⟨w, t, .add h id v, x⟩).toList ((m.perform (.add h id v)).2.slots n) := by
  refine doings_withTable (fun h => by subst h; rfl) hx fun k table hl ht hx => ?_
  refine doings_settle hx (fun why h => by subst h; rfl) fun table' hok hx => ?_
  obtain ⟨habsent, rfl⟩ := Table.add_eq_ok hok
  cases hx
  exact Managers.doings_put ht (habsent ▸ .added v) rfl

theorem doings_set (hw : w.Follows m) {v : α} (hx : (m.perform (.set h id v)).1.Shows x) :
    Doings (m.slots n) (Served.deed? n ⟨w, t, .set h id v, x⟩).toList ((m.perform (.set h id v)).2.slots n) := by
  refine doings_withTable (fun h => by subst h; rfl) hx fun k table hl ht hx => ?_
  refine doings_settle hx (fun why h => by subst h; rfl) fun table' hok hx => ?_
  obtain ⟨hreserved, rfl⟩ := Table.set_eq_ok hok
  cases hx
  simp only [Served.deed?, hw.find?, hl, Option.some.injEq]
  exact Managers.doings_put ht (hreserved ▸ .set v) rfl

theorem doings_pop (hw : w.Follows m) (hx : (m.perform (.pop h id)).1.Shows x) :
    Doings (m.slots n) (Served.deed? n ⟨w, t, .pop h id, x⟩).toList ((m.perform (.pop h id)).2.slots n) := by
  refine doings_withTable (fun h => by subst h; rfl) hx fun k table hl ht hx => ?_
  refine doings_settle hx (fun why h => by subst h; rfl) fun ⟨v, table'⟩ hok hx => ?_
  obtain ⟨hoccupied, rfl⟩ := Table.pop_eq_ok hok
  cases hx
  simp only [Served.deed?, hw.find?, hl, Option.some.injEq]
  exact Managers.doings_put ht (hoccupied ▸ .popped v) rfl

/-- A release frees what is there, and otherwise does nothing. -/
theorem doings_release (hw : w.Follows m) (hn : m.Stays n) (ticket : Ticket) :
    Doings (m.slots n) (Served.deed? n ⟨w, t, .release ticket, .done⟩).toList ((m.release ticket).slots n) := by
  simp only [Served.deed?, hw.slots hn]
  by_cases hcell : ticket.cell = n
  · subst hcell
    rw [Managers.slots_release hn]
    cases hs : m.slots ticket.cell ticket.id with
    | none =>
      refine doings_of_same (if_neg (by simp)) ?_
      funext id
      by_cases hid : ticket.id = id
      · rw [if_pos hid, ← hid, hs]
      · rw [if_neg hid]
    | some slot =>
      rw [if_pos ⟨rfl, rfl⟩]
      exact .cons (hs ▸ .released slot) (.nil _)
  · rw [Managers.slots_release_ne hcell]
    exact doings_of_same (if_neg fun h => hcell h.1) rfl

/-- **What a request did to the ids of a registry that is not gone is done to its slots.** -/
theorem doings (hw : w.Follows m) (hs : Serves w t r.call x w') (hn : (m.perform r).2.Stays n) :
    Doings (w.slots n) (Served.deed? n ⟨w, t, r, x⟩).toList (w'.slots n) := by
  obtain ⟨hx, hw'⟩ := hw.of_serves hs
  have hbefore := Managers.stays_of_perform hn
  rw [hw.slots hbefore, hw'.slots hn]
  have read : ∀ {h : Handle} {reply : CellId → Table α → Reply α} {act : CellId → Managers α},
      m.perform r = m.withTable h (fun k t => (reply k t, act k)) → (∀ k, (act k).slots n = m.slots n) →
      Served.deed? n ⟨w, t, r, x⟩ = none →
      Doings (m.slots n) (Served.deed? n ⟨w, t, r, x⟩).toList ((m.perform r).2.slots n) := by
    intro h reply act hp hact hdeed
    rw [hp] at hx ⊢
    exact doings_withTable (fun _ => hdeed) hx fun k table _ _ _ => doings_of_same hdeed (hact k)
  cases r with
  | create h =>
    exact doings_of_same rfl Managers.slots_create
  | share source target => exact read rfl (fun _ => rfl) rfl
  | giveUp h => exact read rfl (fun _ => rfl) rfl
  | reserve h => exact doings_reserve hx
  | add h id v => exact doings_add hx
  | set h id v => exact hw.doings_set hx
  | pop h id => exact hw.doings_pop hx
  | get h id => exact read rfl (fun _ => rfl) rfl
  | contains h id => exact read rfl (fun _ => rfl) rfl
  | size h => exact read rfl (fun _ => rfl) rfl
  | isEmpty h => exact read rfl (fun _ => rfl) rfl
  | cursor h => exact read rfl (fun _ => rfl) rfl
  | walk h goesOn => exact read rfl (fun _ => rfl) rfl
  | release ticket =>
    cases hx
    exact hw.doings_release hbefore ticket

/-! ### Sessions -/

/-- **What a session did to the ids of a registry that is not gone is done to its slots,** one deed after the other. -/
theorem session (hw : w.Follows m) (h : Session w served w') :
    ∃ m', w'.Follows m' ∧ ∀ n, m'.Stays n → m.Stays n ∧ Doings (w.slots n) (deeds n served) (w'.slots n) := by
  induction h generalizing m with
  | nil w => exact ⟨m, hw, fun n hn => ⟨hn, .nil _⟩⟩
  | @cons s w w' rest hserved _ ih =>
    obtain ⟨m', hw', hrest⟩ := ih (hw.of_serves hserved).2
    refine ⟨m', hw', fun n hn => ?_⟩
    obtain ⟨hstays, hdoings⟩ := hrest n hn
    rw [deeds_cons]
    exact ⟨Managers.stays_of_perform hstays, (hw.doings hserved hstays).append hdoings⟩

/-- What holds where one part of a session ends and the other begins, for a registry that has a handle in the end. -/
theorem part (hw : w.Follows m) (h : Session w (served ++ rest) w') (hn : ∃ b ∈ w'.handles, b.2 = n) :
    ∃ w₁ m₁, w₁.Follows m₁ ∧ Session w₁ rest w' ∧ Doings (w.slots n) (deeds n served) (w₁.slots n) := by
  obtain ⟨w₁, hserved, hrest⟩ := session_append h
  obtain ⟨m₁, hw₁, hdoings⟩ := hw.session hserved
  obtain ⟨m₂, hw₂, hstays⟩ := hw₁.session hrest
  rw [hw₂.handles] at hn
  exact ⟨w₁, m₁, hw₁, hrest, (hdoings n (hstays n (.inl hn)).1).2⟩

theorem table?_of_find? (hw : w.Follows m) (hf : w.find? h = some n) :
    ∃ table, m.table? h = some (n, table) ∧ w.slots n = table.slots := by
  have hlive : m.Live n := ⟨(h, n), hw.handles ▸ Config.mem_of_find? hf, rfl⟩
  obtain ⟨cell, table, -, ht, -⟩ := hw.live hlive
  refine ⟨table, ?_, (hw.slots (.inl hlive)).trans (Managers.slots_of_table ht)⟩
  rw [Managers.table?, ← hw.find?, hf, Option.bind_some, ht]
  rfl

end World.Follows

end

/-! ### Races -/

/-- What threads can race for: to set a reserved id, to add an absent one, or to pop an occupied one. -/
inductive Race
  | set
  | add
  | pop

namespace Race

/-- The slot is still to be won. -/
def opens : Race → Option (Slot α) → Bool
  | set, some .reserved => true
  | add, none => true
  | pop, some (.occupied _) => true
  | _, _ => false

/-- The deed of a winner. -/
def won : Race → Deed α → Bool
  | set => Deed.sets
  | add => Deed.adds
  | pop => Deed.pops

/-- The request of one who takes part. -/
def request (race : Race) (h : Handle) (id : SlotId) (v : α) : Request α :=
  match race with
  | set => .set h id v
  | add => .add h id v
  | pop => .pop h id

variable {race : Race} {w w' : World α} {m : Managers α} {n : CellId} {h : Handle} {id : SlotId} {v : α}
  {block after : List (Served α)}

/-- Nobody wins who comes second. -/
theorem won_once {a b c : Option (Slot α)} {d e : Deed α} (hd : Turn a d b) (he : Turn b e c) (hwon : race.won d)
    (hwon' : race.won e) : False := by
  cases race <;> cases hd <;> cases hwon <;> cases he <;> cases hwon'

theorem eq_of_opens {a : Option (Slot α)} (h : race.opens a) :
    match race with
    | set => a = some .reserved
    | add => a = none
    | pop => ∃ v, a = some (.occupied v) := by
  cases race <;> rcases a with _ | _ | v <;> first | rfl | exact ⟨v, rfl⟩ | cases h

/-- Who comes while the slot is still to be won does something to the id. -/
theorem deed_of_opens {s : Served α} (hw : s.before.Follows m)
    (hs : Serves s.before s.thread s.request.call s.outcome w') (hf : s.before.find? h = some n)
    (hr : s.request = race.request h id v) (ho : race.opens (s.before.slots n id)) :
    ∃ d, s.deed? n = some (id, d) := by
  obtain ⟨w, t, r, x⟩ := s
  simp only at hw hs hf hr ho
  subst hr
  obtain ⟨table, ht, hslots⟩ := hw.table?_of_find? hf
  have hx := (hw.of_serves hs).1
  rw [hslots] at ho
  cases race with
  | set =>
    have hslot : table.slots id = some .reserved := eq_of_opens ho
    have hp : (m.perform (set.request h id v)).1 = .done := by
      rw [request, Managers.perform, withTable_of_some ht, Table.set, hslot]
      rfl
    rw [hp] at hx
    cases hx
    exact ⟨.set v, if_pos hf⟩
  | add =>
    have hslot : table.slots id = none := eq_of_opens ho
    have hp : (m.perform (add.request h id v)).1 = .added ⟨id, n⟩ := by
      rw [request, Managers.perform, withTable_of_some ht, Table.add, hslot]
      rfl
    rw [hp] at hx
    cases hx
    exact ⟨.added v, if_pos rfl⟩
  | pop =>
    obtain ⟨u, hslot⟩ := eq_of_opens ho
    have hp : (m.perform (pop.request h id v)).1 = .popped u := by
      rw [request, Managers.perform, withTable_of_some ht, Table.pop, hslot]
      rfl
    rw [hp] at hx
    cases hx
    exact ⟨.popped u, if_pos hf⟩

/-- **Exactly one wins** of those who race for an id that is still to be won, if nothing else is done to it. -/
theorem one_wins (hw : w.Follows m) (h : Session w (block ++ after) w') (hn : ∃ b ∈ w'.handles, b.2 = n)
    (ho : race.opens (w.slots n id))
    (hjoined : ∃ s ∈ block, ∃ h v, s.before.find? h = some n ∧ s.request = race.request h id v)
    (hwon : ∀ d ∈ ofId id (deeds n block), race.won d) : ∃ d, ofId id (deeds n block) = [d] := by
  obtain ⟨_, _, _, _, hdoings⟩ := hw.part h hn
  rcases (hdoings.path id).at_most_one hwon won_once with hnone | hone
  · obtain ⟨s, hs, h', v, hf, hr⟩ := hjoined
    obtain ⟨earlier, later, rfl⟩ := List.append_of_mem hs
    rw [List.append_assoc] at h
    obtain ⟨w₁, m₁, hw₁, hlater, hearlier⟩ := hw.part h hn
    obtain ⟨rfl, w₂, hserves, -⟩ := session_cons hlater
    rw [deeds_append, deeds_cons, ofId_append, ofId_append, List.append_eq_nil_iff, List.append_eq_nil_iff] at hnone
    -- nothing was done to the id before, so it is still to be won
    have hsame := hearlier.path id
    rw [hnone.1] at hsame
    rw [← path_nil hsame] at ho
    obtain ⟨d, hd⟩ := deed_of_opens hw₁ hserves hf hr ho
    rw [hd] at hnone
    exact absurd hnone.2.1 (by simp [ofId])
  · exact hone

end Race

/-! ### Accounts -/

section

variable {w w' : World α} {m : Managers α} {t : Thread} {x : Outcome α} {n : CellId} {h : Handle}
  {ds : List (SlotId × Deed α)}

theorem presence_none : presence (fun _ => none : SlotId → Option (Slot α)) = 0 := by
  rw [presence, List.length_eq_zero_iff, List.filter_eq_nil_iff]
  intro id _ h
  cases h

/-- What was done to a table that was empty at first accounts for what is there. -/
theorem accounts_of_doings (hw : w.Follows m) (hlive : m.Live n) (hdoings : Doings (fun _ => none) ds (w.slots n)) :
    ∃ cell, w.cells[n]? = some cell ∧ (∀ id, Account (ofId id ds) (cell.registry.slot? id).isSome) ∧
      cell.registry.size + ds.countP (fun e => e.2.frees) = ds.countP (fun e => e.2.acquires) := by
  obtain ⟨cell, table, hc, ht, hshows⟩ := hw.live hlive
  rw [hw.slots (.inl hlive), Managers.slots_of_table ht] at hdoings
  refine ⟨cell, hc, fun id => ?_, ?_⟩
  · have hpath := hdoings.path id
    rw [hshows.isSome]
    exact hpath.account
  · have hsize := hdoings.presence
    rw [presence_none, Nat.zero_add, ← Table.size_eq] at hsize
    rw [hshows.size]
    exact hsize

/-- The size that is replied is the number of acquisitions without that of frees. -/
theorem count_of_doings (hw : w.Follows m) (hs : Serves w t (Request.size h).call x w') (hf : w.find? h = some n)
    (hdoings : Doings (fun _ => none) ds (w.slots n)) :
    ∃ k, x = .count k ∧ k + ds.countP (fun e => e.2.frees) = ds.countP (fun e => e.2.acquires) := by
  obtain ⟨table, ht, hslots⟩ := hw.table?_of_find? hf
  have hx := (hw.of_serves hs).1
  have hsize := hdoings.presence
  rw [Managers.perform, withTable_of_some ht] at hx
  rw [hslots, presence_none, Nat.zero_add, ← Table.size_eq] at hsize
  generalize table.size = k at hx hsize
  cases hx
  exact ⟨k, rfl, hsize⟩

end

/-- **The accounts of a registry that threads share are in order,** whatever they ask and in whatever order.  For every id
acquisitions and frees take turns, a period has one set at most, and a value is popped that was bound in the same period
(`Account`).  The size is at every point the number of acquisitions without that of frees.  Of those who race to set a
reserved id, to add an absent one or to pop an occupied one, exactly one wins. -/
theorem shared_registry_accounts (v : Verbosity) (served : List (Served α)) (w : World α) (n : CellId)
    (h : Session (World.empty v) served w) (hn : ∃ b ∈ w.handles, b.2 = n) :
    (∃ cell, w.cells[n]? = some cell ∧
      (∀ id, Account (ofId id (deeds n served)) (cell.registry.slot? id).isSome) ∧
      cell.registry.size + (deeds n served).countP (fun e => e.2.frees) =
        (deeds n served).countP (fun e => e.2.acquires)) ∧
    (∀ (before after : List (Served α)) (s : Served α) (h : Handle), served = before ++ s :: after →
      s.request = .size h → s.before.find? h = some n →
      ∃ k, s.outcome = .count k ∧
        k + (deeds n before).countP (fun e => e.2.frees) = (deeds n before).countP (fun e => e.2.acquires)) ∧
    ∀ (race : Race) (id : SlotId) (before block after : List (Served α)) (first : Served α),
      served = before ++ (block ++ after) → block.head? = some first → race.opens (first.before.slots n id) →
      (∃ s ∈ block, ∃ h v, s.before.find? h = some n ∧ s.request = race.request h id v) →
      (∀ d ∈ ofId id (deeds n block), race.won d) → ∃ d, ofId id (deeds n block) = [d] := by
  have hempty := follows_empty (α := α) v
  refine ⟨?_, fun before after s h' heq hr hf => ?_,
    fun race id before block after first heq hfirst ho hjoined hwon => ?_⟩
  · obtain ⟨m, hw, hdoings⟩ := hempty.session h
    have hlive : m.Live n := by
      rw [hw.handles] at hn
      exact hn
    exact accounts_of_doings hw hlive (hdoings n (.inl hlive)).2
  · subst heq
    obtain ⟨w₁, m, hw, hlater, hdoings⟩ := hempty.part h hn
    obtain ⟨rfl, w₂, hserves, -⟩ := session_cons hlater
    rw [hr] at hserves
    exact count_of_doings hw hserves hf hdoings
  · subst heq
    obtain ⟨w₁, m, hw, hlater, -⟩ := hempty.part h hn
    cases block with
    | nil => cases hfirst
    | cons s block =>
      cases hfirst
      obtain ⟨rfl, -⟩ := session_cons hlater
      exact Race.one_wins hw hlater hn ho hjoined hwon

/-- Two threads race to add one absent id: one of them wins, and the account of the id shows it present once. -/
theorem shared_registry_accounts_of_two_adds :
    ∃ (served : List (Served Nat)) (w : World Nat), Session (World.empty .quiet) served w ∧
      asked served = [(0, .create (.named "r")), (0, .add (.named "r") 1 7), (1, .add (.named "r") 1 8)] ∧
      (∃ b ∈ w.handles, b.2 = 0) ∧ (∃ d, ofId 1 (deeds 0 served) = [d]) ∧
      ∃ cell, w.cells[0]? = some cell ∧ Account (ofId 1 (deeds 0 served)) (cell.registry.slot? 1).isSome := by
  have hw := follows_empty (α := Nat) .quiet
  obtain ⟨x, w₁, hcreate, hx, hw₁⟩ := hw.answered 0 (.create (.named "r"))
  obtain ⟨x₁, w₂, hadd, hx₁, hw₂⟩ := hw₁.answered 0 (.add (.named "r") 1 7)
  obtain ⟨x₂, w₃, hadd', hx₂, hw₃⟩ := hw₂.answered 1 (.add (.named "r") 1 8)
  cases (hx : Reply.done.Shows x)
  cases (hx₁ : (Reply.added ⟨1, 0⟩).Shows x₁)
  cases (hx₂ : (Reply.refused (.taken 1)).Shows x₂)
  let first : Served Nat := ⟨w₁, 0, .add (.named "r") 1 7, .added ⟨1, 0⟩⟩
  let second : Served Nat := ⟨w₂, 1, .add (.named "r") 1 8, .refused (.taken 1)⟩
  have hsession : Session (World.empty .quiet) (⟨_, _, _, _⟩ :: ([first, second] ++ [])) w₃ :=
    .cons (s := ⟨_, _, _, _⟩) hcreate (.cons (s := first) hadd (.cons (s := second) hadd' (.nil w₃)))
  have hheld : ∃ b ∈ w₃.handles, b.2 = 0 := ⟨(.named "r", 0), by rw [hw₃.handles]; exact List.mem_cons_self, rfl⟩
  obtain ⟨⟨cell, hc, haccount, -⟩, -, hrace⟩ := shared_registry_accounts .quiet _ w₃ 0 hsession hheld
  refine ⟨_, w₃, hsession, rfl, hheld, ?_, cell, hc, haccount 1⟩
  have hslots : Race.add.opens (first.before.slots 0 1) := by
    rw [hw₁.slots (.inl ⟨(.named "r", 0), List.mem_cons_self, rfl⟩)]
    rfl
  have hdeeds : ofId 1 (deeds 0 [first, second]) = [.added 7] := rfl
  refine hrace .add 1 [⟨_, _, _, _⟩] [first, second] [] first rfl rfl hslots
    ⟨first, List.mem_cons_self, .named "r", 7, by rw [hw₁.find?]; rfl, rfl⟩ fun d hd => ?_
  rw [hdeeds] at hd
  cases List.mem_singleton.1 hd
  rfl

end SlotRegistry
