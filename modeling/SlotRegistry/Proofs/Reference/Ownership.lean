import SlotRegistry.Proofs.Reference.Sharing
/-!
# Ownership — threads that keep to the ids they own

A thread owns an id of a registry from its own reservation or addition on, until it pops or releases the id.  What it
owns, and what is bound there, is told by its own requests and what came of them (`owned`).  As long as each thread
sets, pops and releases only what it owns (`Disciplined`), every present id has one owner, and its slot is as that
owner left it (`Parted`).
-/
namespace SlotRegistry

variable {α : Type}

/-- What a deed leaves of its id. -/
def Deed.leaves : Deed α → Option (Slot α)
  | reserved => some .reserved
  | added v | set v => some (.occupied v)
  | popped _ | released => none

theorem Turn.leaves {a b : Option (Slot α)} {d : Deed α} (h : Turn a d b) : d.leaves = b := by
  cases h <;> rfl

theorem Turn.absent {a b : Option (Slot α)} {d : Deed α} (h : Turn a d b) (hd : d.acquires) : a = none := by
  cases h with
  | reserved => rfl
  | added => rfl
  | set => cases hd
  | popped => cases hd
  | released => cases hd

/-- The id of a registry that a request is to set, to pop or to release. -/
def Served.uses? (n : CellId) (s : Served α) : Option SlotId :=
  match s.request with
  | .set h id _ => if s.before.find? h = some n then some id else none
  | .pop h id => if s.before.find? h = some n then some id else none
  | .release ticket => if ticket.cell = n then some ticket.id else none
  | _ => none

/-- What its own request tells a thread of an id.  A thread that releases an id does not learn whether it was there. -/
def Served.learnt? (n : CellId) (s : Served α) : Option (SlotId × Option (Slot α)) :=
  match s.request with
  | .release ticket => if ticket.cell = n then some (ticket.id, none) else none
  | _ => (s.deed? n).map fun e => (e.1, e.2.leaves)

/-- What a thread knows of the ids, and after it has learnt of one. -/
def learn (own : SlotId → Option (Slot α)) : Option (SlotId × Option (Slot α)) → SlotId → Option (Slot α)
  | none, x => own x
  | some (id, slot), x => if id = x then slot else own x

/-- The ids of a registry that a thread owns, each with its slot as the thread left it. -/
def owned (n : CellId) (t : Thread) (served : List (Served α)) : SlotId → Option (Slot α) :=
  served.foldl (fun own s => if s.thread = t then learn own (s.learnt? n) else own) fun _ => none

/-- Each thread sets, pops and releases ids that it owns, and no others. -/
inductive Disciplined (n : CellId) : List (Served α) → Prop
  | nil : Disciplined n []
  | snoc {served : List (Served α)} {s : Served α} (before : Disciplined n served)
      (own : ∀ id, s.uses? n = some id → (owned n s.thread served id).isSome) : Disciplined n (served ++ [s])

theorem owned_snoc (n : CellId) (t : Thread) (served : List (Served α)) (s : Served α) :
    owned n t (served ++ [s]) =
      if s.thread = t then learn (owned n t served) (s.learnt? n) else owned n t served := by
  rw [owned, List.foldl_append]
  rfl

/-- **The slots are parted among the threads:** what is present has one owner, and is as its owner left it. -/
structure Parted (own : Thread → SlotId → Option (Slot α)) (slots : SlotId → Option (Slot α)) : Prop where
  alone : ∀ (t u : Thread) (id : SlotId), (own t id).isSome → (own u id).isSome → t = u
  agrees : ∀ (t : Thread) (id : SlotId) (slot : Slot α), own t id = some slot → slots id = some slot
  covers : ∀ id : SlotId, (slots id).isSome → ∃ t, (own t id).isSome

namespace Parted

variable {own : Thread → SlotId → Option (Slot α)} {slots : SlotId → Option (Slot α)} {t : Thread} {id : SlotId}
  {d : Deed α} {b : Option (Slot α)}

theorem empty : Parted (fun _ _ => none : Thread → SlotId → Option (Slot α)) fun _ => none := by
  constructor
  · intro t u id h
    cases h
  · intro t id slot h
    cases h
  · intro id h
    cases h

theorem owner_of_absent (h : Parted own slots) (ha : slots id = none) (t : Thread) : own t id = none := by
  cases ho : own t id with
  | none => rfl
  | some slot =>
    rw [h.agrees t id slot ho] at ha
    cases ha

/-- After a thread has changed the slot of an id that nobody else owns, what is owned is either that id, by that thread,
or was owned before. -/
theorem owned_of_update (others : ∀ u, u ≠ t → own u id = none) {u : Thread} {x : SlotId} {slot : Slot α}
    (hslot : (if t = u then learn (own u) (some (id, b)) else own u) x = some slot) :
    (t = u ∧ id = x ∧ b = some slot) ∨ (id ≠ x ∧ own u x = some slot) := by
  by_cases hid : id = x
  · by_cases hu : t = u
    · rw [if_pos hu, learn, if_pos hid] at hslot
      exact .inl ⟨hu, hid, hslot⟩
    · rw [if_neg hu, ← hid, others u (Ne.symm hu)] at hslot
      cases hslot
  · by_cases hu : t = u
    · rw [if_pos hu, learn, if_neg hid] at hslot
      exact .inr ⟨hid, hslot⟩
    · rw [if_neg hu] at hslot
      exact .inr ⟨hid, hslot⟩

/-- A thread changes the slot of an id that nobody else owns. -/
theorem update (h : Parted own slots) (others : ∀ u, u ≠ t → own u id = none) (b : Option (Slot α)) :
    Parted (fun u => if t = u then learn (own u) (some (id, b)) else own u) fun x => if id = x then b else slots x := by
  constructor
  · intro u u' x hu hu'
    obtain ⟨slot, hslot⟩ := Option.isSome_iff_exists.1 hu
    obtain ⟨slot', hslot'⟩ := Option.isSome_iff_exists.1 hu'
    rcases owned_of_update others hslot with ⟨rfl, rfl, -⟩ | ⟨hid, ho⟩
    · rcases owned_of_update others hslot' with ⟨rfl, -, -⟩ | ⟨hid, -⟩
      · rfl
      · exact absurd rfl hid
    · rcases owned_of_update others hslot' with ⟨-, rfl, -⟩ | ⟨-, ho'⟩
      · exact absurd rfl hid
      · exact h.alone u u' x (Option.isSome_iff_exists.2 ⟨slot, ho⟩) (Option.isSome_iff_exists.2 ⟨slot', ho'⟩)
  · intro u x slot hslot
    rcases owned_of_update others hslot with ⟨-, hid, hb⟩ | ⟨hid, ho⟩
    · rw [if_pos hid, hb]
    · rw [if_neg hid]
      exact h.agrees u x slot ho
  · intro x hx
    by_cases hid : id = x
    · rw [if_pos hid] at hx
      exact ⟨t, by rw [if_pos rfl, learn, if_pos hid]; exact hx⟩
    · rw [if_neg hid] at hx
      obtain ⟨u, hu⟩ := h.covers x hx
      refine ⟨u, ?_⟩
      split
      · rw [learn, if_neg hid]
        exact hu
      · exact hu

/-- A deed to an id that was absent, or whose owner did it, leaves the slots parted. -/
theorem turn (h : Parted own slots) (ht : Turn (slots id) d b) (hown : d.acquires = false → (own t id).isSome) :
    Parted (fun u => if t = u then learn (own u) (some (id, d.leaves)) else own u)
      fun x => if id = x then b else slots x := by
  rw [ht.leaves]
  refine h.update (fun u hu => ?_) b
  by_cases hd : d.acquires = false
  · cases ho : own u id with
    | none => rfl
    | some slot => exact absurd (h.alone u t id (by rw [ho]; rfl) (hown hd)) hu
  · exact h.owner_of_absent (ht.absent (eq_true_of_ne_false hd)) u

end Parted

/-! ### Requests -/

section

variable {w w' : World α} {m : Managers α} {s : Served α} {served : List (Served α)} {n : CellId} {h : Handle}
  {id : SlotId} {t u : Thread} {v : α} {d : Deed α} {slot : Slot α}

/-- What does not acquire an id was to set, to pop or to release it. -/
theorem Served.uses?_of_deed? (hd : s.deed? n = some (id, d)) (ha : d.acquires = false) : s.uses? n = some id := by
  obtain ⟨w, t, r, x⟩ := s
  unfold Served.deed? at hd
  split at hd
  · split at hd <;> cases hd
    cases ha
  · split at hd <;> cases hd
    cases ha
  · rename_i h id v hr hx
    split at hd <;> cases hd
    cases hr
    exact if_pos ‹_›
  · rename_i h id k v hr hx
    split at hd <;> cases hd
    cases hr
    exact if_pos ‹_›
  · rename_i ticket hr hx
    split at hd <;> cases hd
    cases hr
    exact if_pos (And.left ‹_›)
  · cases hd

/-- A thread that keeps to what is present learns what its request did. -/
theorem Served.learnt?_eq (hs : Serves s.before s.thread s.request.call s.outcome w') (hw : s.before.Follows m)
    (present : ∀ id, s.uses? n = some id → (s.before.slots n id).isSome) :
    s.learnt? n = (s.deed? n).map fun e => (e.1, e.2.leaves) := by
  obtain ⟨w, t, r, x⟩ := s
  cases r with
  | release ticket =>
    cases (hw.of_serves hs).1
    by_cases hn : ticket.cell = n
    · have hthere : (w.slots n ticket.id).isSome := present ticket.id (if_pos hn)
      simp only [Served.learnt?, Served.deed?, if_pos hn, if_pos (And.intro hn hthere)]
      rfl
    · have hnot : ¬ (ticket.cell = n ∧ (w.slots n ticket.id).isSome) := fun hand => hn hand.1
      simp only [Served.learnt?, Served.deed?, if_neg hn, if_neg hnot]
      rfl
  | _ => rfl

theorem doings_nil {slots slots' : SlotId → Option (Slot α)} (hd : Doings slots [] slots') : slots' = slots := by
  cases hd
  rfl

theorem doings_singleton {slots slots' : SlotId → Option (Slot α)} (hd : Doings slots [(id, d)] slots') :
    ∃ b, Turn (slots id) d b ∧ slots' = fun x => if id = x then b else slots x := by
  cases hd with
  | cons turn rest => exact ⟨_, turn, doings_nil rest⟩

/-- **A request of a thread that keeps to its own leaves the slots parted.** -/
theorem Parted.serve {own : Thread → SlotId → Option (Slot α)} (hp : Parted own (s.before.slots n))
    (hw : s.before.Follows m) (hs : Serves s.before s.thread s.request.call s.outcome w')
    (hn : (m.perform s.request).2.Stays n) (hown : ∀ id, s.uses? n = some id → (own s.thread id).isSome) :
    Parted (fun t => if s.thread = t then learn (own t) (s.learnt? n) else own t) (w'.slots n) := by
  have hdoings := hw.doings hs hn
  have hpresent : ∀ id, s.uses? n = some id → (s.before.slots n id).isSome := by
    intro id hid
    obtain ⟨slot, hslot⟩ := Option.isSome_iff_exists.1 (hown id hid)
    rw [hp.agrees _ _ _ hslot]
    rfl
  rw [Served.learnt?_eq hs hw hpresent]
  cases hd : s.deed? n with
  | none =>
    rw [show (Served.deed? n ⟨s.before, s.thread, s.request, s.outcome⟩) = none from hd] at hdoings
    rw [doings_nil hdoings]
    have hsame : (fun t => if s.thread = t then learn (own t) none else own t) = own := by
      funext t
      exact ite_self _
    rw [Option.map_none, hsame]
    exact hp
  | some e =>
    obtain ⟨id, d⟩ := e
    rw [show (Served.deed? n ⟨s.before, s.thread, s.request, s.outcome⟩) = some (id, d) from hd] at hdoings
    obtain ⟨b, turn, hslots⟩ := doings_singleton hdoings
    rw [hslots]
    exact hp.turn turn fun ha => hown id (Served.uses?_of_deed? hd ha)

/-- **As long as the threads keep to their own, the slots are parted among them.** -/
theorem Disciplined.parted (hd : Disciplined n served) (verbosity : Verbosity)
    (h : Session (World.empty verbosity) served w) : ∃ m, w.Follows m ∧
      (m.Stays n → Parted (fun t => owned n t served) (w.slots n)) := by
  induction hd generalizing w with
  | nil =>
    rw [session_nil h]
    exact ⟨.empty, follows_empty verbosity, fun _ => .empty⟩
  | @snoc served s before own ih =>
    obtain ⟨w₁, hserved, hlast⟩ := session_append h
    obtain ⟨rfl, w₂, hs, hnil⟩ := session_cons hlast
    rw [session_nil hnil]
    obtain ⟨m, hw, hparted⟩ := ih hserved
    refine ⟨(m.perform s.request).2, (hw.of_serves hs).2, fun hn => ?_⟩
    simp only [owned_snoc]
    exact (hparted (Managers.stays_of_perform hn)).serve hw hs hn own

/-! ### What an owner can rely on -/

namespace World.Follows

variable (hw : w.Follows m) (hf : w.find? h = some n)
include hw hf

theorem absent_of_reserved {ticket : Ticket} (hs : Serves w t (Request.reserve h).call (.reserved ticket) w') :
    w.slots n ticket.id = none := by
  obtain ⟨table, ht, hslots⟩ := hw.table?_of_find? hf
  have hx := (hw.of_serves hs).1
  rw [Managers.perform, withTable_of_some ht] at hx
  rw [hslots]
  cases hr : table.reserve with
  | error why =>
    rw [hr] at hx
    cases hx
  | ok p =>
    rw [hr] at hx
    cases hx
    exact (Table.reserve_eq_ok hr).1

theorem refuses_add (hslot : w.slots n id = some slot) :
    ∃ w', Serves w t (Request.add h id v).call (.refused (.taken id)) w' := by
  obtain ⟨table, ht, hslots⟩ := hw.table?_of_find? hf
  obtain ⟨x, w', hs, hx, -⟩ := hw.answered t (.add h id v)
  rw [hslots] at hslot
  rw [Managers.perform, withTable_of_some ht, Table.add, hslot] at hx
  cases hx
  exact ⟨w', hs⟩

theorem sets (hslot : w.slots n id = some .reserved) : ∃ w', Serves w t (Request.set h id v).call .done w' := by
  obtain ⟨table, ht, hslots⟩ := hw.table?_of_find? hf
  obtain ⟨x, w', hs, hx, -⟩ := hw.answered t (.set h id v)
  rw [hslots] at hslot
  rw [Managers.perform, withTable_of_some ht, Table.set, hslot] at hx
  cases hx
  exact ⟨w', hs⟩

theorem pops (hslot : w.slots n id = some (.occupied v)) :
    ∃ k w', Serves w t (Request.pop h id).call (.popped k v) w' := by
  obtain ⟨table, ht, hslots⟩ := hw.table?_of_find? hf
  obtain ⟨x, w', hs, hx, -⟩ := hw.answered t (.pop h id)
  rw [hslots] at hslot
  rw [Managers.perform, withTable_of_some ht, Table.pop, hslot] at hx
  cases hx
  exact ⟨_, w', hs⟩

end World.Follows

end

/-- **Owners have their ids to themselves.**  When each thread sets, pops and releases only ids that it owns, no id has
two owners and the owned ids are the present ones.  No reservation returns an owned id, and no addition of one is
accepted.  A reserved id is set by its owner, and a value is popped that its owner bound last, whatever the others
do. -/
theorem owners_keep_their_ids (verbosity : Verbosity) (served : List (Served α)) (w : World α) (n : CellId)
    (h : Session (World.empty verbosity) served w) (hn : ∃ b ∈ w.handles, b.2 = n) (hd : Disciplined n served) :
    (∀ (t u : Thread) (id : SlotId), (owned n t served id).isSome → (owned n u served id).isSome → t = u) ∧
    (∃ cell, w.cells[n]? = some cell ∧
      ∀ id : SlotId, (∃ t, (owned n t served id).isSome) ↔ (cell.registry.slot? id).isSome) ∧
    ∀ (t u : Thread) (id : SlotId) (v : α) (h : Handle), w.find? h = some n →
      (∀ w', Serves w u (Request.reserve h).call (.reserved ⟨id, n⟩) w' → owned n t served id = none) ∧
      ((owned n t served id).isSome → ∃ w', Serves w u (Request.add h id v).call (.refused (.taken id)) w') ∧
      (owned n t served id = some .reserved → ∃ w', Serves w t (Request.set h id v).call .done w') ∧
      (owned n t served id = some (.occupied v) → ∃ k w', Serves w t (Request.pop h id).call (.popped k v) w') := by
  obtain ⟨m, hw, hparted⟩ := hd.parted verbosity h
  have hlive : m.Live n := by
    rw [hw.handles] at hn
    exact hn
  have hp := hparted (.inl hlive)
  refine ⟨hp.alone, ?_, fun t u id v h hf => ⟨fun w' hs => ?_, fun ho => ?_, fun ho => ?_, fun ho => ?_⟩⟩
  · obtain ⟨cell, table, hc, ht, hshows⟩ := hw.live hlive
    refine ⟨cell, hc, fun id => ?_⟩
    rw [hshows.isSome, ← Managers.slots_of_table ht, ← hw.slots (.inl hlive)]
    constructor
    · rintro ⟨t, ho⟩
      obtain ⟨slot, hslot⟩ := Option.isSome_iff_exists.1 ho
      rw [hp.agrees t id slot hslot]
      rfl
    · exact hp.covers id
  · exact hp.owner_of_absent (hw.absent_of_reserved hf hs) t
  · obtain ⟨slot, hslot⟩ := Option.isSome_iff_exists.1 ho
    exact hw.refuses_add hf (hp.agrees t id slot hslot)
  · exact hw.sets hf (hp.agrees t id _ ho)
  · exact hw.pops hf (hp.agrees t id _ ho)

/-- One thread reserves an id and binds a value, another adds an id meanwhile: the first one gets its value back. -/
theorem owners_keep_their_ids_of_two :
    ∃ (served : List (Served Nat)) (w : World Nat), Session (World.empty .quiet) served w ∧
      asked served = [(0, .create (.named "r")), (0, .reserve (.named "r")), (1, .add (.named "r") 2 8),
        (0, .set (.named "r") 1 7)] ∧
      (∃ b ∈ w.handles, b.2 = 0) ∧ Disciplined 0 served ∧ w.find? (.named "r") = some 0 ∧
      owned 0 0 served 1 = some (.occupied 7) ∧
      ∃ k w', Serves w 0 (Request.pop (.named "r") 1).call (.popped k 7) w' := by
  have hw := follows_empty (α := Nat) .quiet
  obtain ⟨x, w₁, hcreate, hx, hw₁⟩ := hw.answered 0 (.create (.named "r"))
  obtain ⟨x₁, w₂, hreserve, hx₁, hw₂⟩ := hw₁.answered 0 (.reserve (.named "r"))
  obtain ⟨x₂, w₃, hadd, hx₂, hw₃⟩ := hw₂.answered 1 (.add (.named "r") 2 8)
  obtain ⟨x₃, w₄, hset, hx₃, hw₄⟩ := hw₃.answered 0 (.set (.named "r") 1 7)
  cases (hx : Reply.done.Shows x)
  cases (hx₁ : (Reply.reserved ⟨1, 0⟩).Shows x₁)
  cases (hx₂ : (Reply.added ⟨2, 0⟩).Shows x₂)
  cases (hx₃ : Reply.done.Shows x₃)
  let served : List (Served Nat) :=
    [] ++ [⟨World.empty .quiet, 0, .create (.named "r"), .done⟩] ++ [⟨w₁, 0, .reserve (.named "r"), .reserved ⟨1, 0⟩⟩] ++
      [⟨w₂, 1, .add (.named "r") 2 8, .added ⟨2, 0⟩⟩] ++ [⟨w₃, 0, .set (.named "r") 1 7, .done⟩]
  have hsession : Session (World.empty .quiet) served w₄ :=
    .cons (s := ⟨_, _, _, _⟩) hcreate (.cons (s := ⟨_, _, _, _⟩) hreserve (.cons (s := ⟨_, _, _, _⟩) hadd
      (.cons (s := ⟨_, _, _, _⟩) hset (.nil w₄))))
  have hheld : ∃ b ∈ w₄.handles, b.2 = 0 := ⟨(.named "r", 0), by rw [hw₄.handles]; exact List.mem_cons_self, rfl⟩
  have hfind₃ : w₃.find? (.named "r") = some 0 := by rw [hw₃.find?]; rfl
  have hfind : w₄.find? (.named "r") = some 0 := by rw [hw₄.find?]; rfl
  have hdisciplined : Disciplined 0 served := by
    refine .snoc (.snoc (.snoc (.snoc .nil ?_) ?_) ?_) ?_
    · intro id hid
      cases hid
    · intro id hid
      cases hid
    · intro id hid
      cases hid
    · intro id hid
      simp only [Served.uses?, if_pos hfind₃] at hid
      cases hid
      rfl
  have howned : owned 0 0 served 1 = some (.occupied 7) := by
    have hlearnt : Served.learnt? 0 ⟨w₃, 0, .set (.named "r") 1 7, .done⟩ = some (1, some (.occupied 7)) := by
      simp only [Served.learnt?, Served.deed?, if_pos hfind₃]
      rfl
    rw [owned_snoc, if_pos rfl, hlearnt]
    rfl
  obtain ⟨-, -, hrely⟩ := owners_keep_their_ids .quiet served w₄ 0 hsession hheld hdisciplined
  exact ⟨served, w₄, hsession, rfl, hheld, hdisciplined, hfind, howned, (hrely 0 1 1 7 _ hfind).2.2.2 howned⟩

end SlotRegistry
