import Mathlib.Data.List.Nodup
import Mathlib.Logic.ExistsUnique
import SlotRegistry.Proofs.Machine.Trade
/-!
# Custody — every value is in one place

The custody of a world says where the values are that were handed over: under which id of which cell a value stands,
which values were given back, and which were destroyed.  A step moves one value at most, and the call that is made says
which one and where to (`Config.Shifts`); so every value is in one place at any time (`Custody.Settled`).
-/
namespace SlotRegistry

variable {α : Type}

/-- Where a value is that was handed over. -/
inductive Place
  | bound (cell : CellId) (id : SlotId)
  | returned
  | destroyed
  deriving DecidableEq, Repr

/-- Where the values are, by their numbers. -/
@[ext] structure Custody where
  /-- The value that stands under an id of a cell. -/
  bound : CellId → SlotId → Option Nat
  /-- The values given back, the last one first: one that was given back twice would stand there twice. -/
  returned : List Nat
  /-- The values destroyed, in the same way. -/
  destroyed : List Nat
  /-- For which id of which cell each value was handed over. -/
  addresses : List (Nat × CellId × SlotId)
  /-- How many values have been handed over. -/
  handed : Nat

theorem Place.returned_ne_bound (n : CellId) (id : SlotId) : returned ≠ bound n id := nofun

theorem Place.destroyed_ne_bound (n : CellId) (id : SlotId) : destroyed ≠ bound n id := nofun

namespace Custody

/-- The value `k` is there. -/
def Has (K : Custody) (k : Nat) : Place → Prop
  | .bound n id => K.bound n id = some k
  | .returned => k ∈ K.returned
  | .destroyed => k ∈ K.destroyed

/-- One more value is handed over. -/
def handOver (K : Custody) (n : CellId) (id : SlotId) : Custody :=
  { K with addresses := (K.handed, n, id) :: K.addresses, handed := K.handed + 1 }

/-- A value comes to a place. -/
def put (K : Custody) (k : Nat) : Place → Custody
  | .bound n id => { K with bound := fun m x => if n = m ∧ id = x then some k else K.bound m x }
  | .returned => { K with returned := k :: K.returned }
  | .destroyed => { K with destroyed := k :: K.destroyed }

/-- Nothing stands under an id any more. -/
def clear (K : Custody) (n : CellId) (id : SlotId) : Custody :=
  { K with bound := fun m x => if n = m ∧ id = x then none else K.bound m x }

/-- Every value that was handed over is in one place, and has not been given back or destroyed more than once. -/
structure Settled (K : Custody) : Prop where
  placed : ∀ k, (∃ p, K.Has k p) ↔ k < K.handed
  one : ∀ k p q, K.Has k p → K.Has k q → p = q
  returned : K.returned.Nodup
  destroyed : K.destroyed.Nodup

/-- The value `k` has come to the place `p`, and no other has moved. -/
def Moved (K L : Custody) (k : Nat) (p : Place) : Prop := ∀ j q, L.Has j q ↔ if j = k then q = p else K.Has j q

variable {K L : Custody} {n : CellId} {id : SlotId} {j k : Nat} {p q : Place}

theorem Settled.lt (h : K.Settled) (hk : K.Has k p) : k < K.handed := (h.placed k).1 ⟨p, hk⟩

theorem Settled.not_has_handed (h : K.Settled) : ¬ K.Has K.handed p := fun hp => Nat.lt_irrefl _ (h.lt hp)

theorem Settled.exists_unique_place (h : K.Settled) (hk : k < K.handed) : ∃! p, K.Has k p := by
  obtain ⟨p, hp⟩ := (h.placed k).2 hk
  exact ⟨p, hp, fun q hq => h.one k q p hq hp⟩

theorem Moved.has (h : K.Moved L k p) : L.Has k p := (h k p).2 (by rw [if_pos rfl])

theorem Moved.has_of_ne (h : K.Moved L k p) (hj : j ≠ k) : L.Has j q ↔ K.Has j q := (h j q).trans (by rw [if_neg hj])

theorem Moved.one (h : K.Moved L k p) (hK : K.Settled) (j : Nat) (q q' : Place) (hq : L.Has j q) (hq' : L.Has j q') :
    q = q' := by
  rw [h] at hq hq'
  split at hq
  · rename_i hj
    rw [if_pos hj] at hq'
    exact hq.trans hq'.symm
  · rename_i hj
    rw [if_neg hj] at hq'
    exact hK.one j q q' hq hq'

/-! ### A value comes to a place -/

theorem has_clear : (K.clear n id).Has j q ↔ q ≠ .bound n id ∧ K.Has j q := by
  cases q with
  | returned => exact ⟨fun h => ⟨Place.returned_ne_bound n id, h⟩, fun h => h.2⟩
  | destroyed => exact ⟨fun h => ⟨Place.destroyed_ne_bound n id, h⟩, fun h => h.2⟩
  | bound m x =>
    change (if n = m ∧ id = x then none else K.bound m x) = some j ↔ _
    split
    · rename_i hx
      obtain ⟨rfl, rfl⟩ := hx
      exact iff_of_false (fun h => by cases h) fun h => h.1 rfl
    · rename_i hx
      exact ⟨fun h => ⟨fun heq => hx (by cases heq; exact ⟨rfl, rfl⟩), h⟩, fun h => h.2⟩

theorem has_put (free : ∀ n id, p = .bound n id → K.bound n id = none) :
    (K.put k p).Has j q ↔ q = p ∧ j = k ∨ K.Has j q := by
  cases p with
  | returned => cases q <;> simp [put, Has]
  | destroyed => cases q <;> simp [put, Has]
  | bound n id =>
    cases q with
    | returned => simp [put, Has]
    | destroyed => simp [put, Has]
    | bound m x =>
      change (if n = m ∧ id = x then some k else K.bound m x) = some j ↔ _
      split
      · rename_i hx
        obtain ⟨rfl, rfl⟩ := hx
        simp [Has, free n id rfl, eq_comm]
      · rename_i hx
        refine ⟨.inr, fun h => h.resolve_left fun heq => hx ?_⟩
        cases heq.1
        exact ⟨rfl, rfl⟩

theorem addresses_put : (K.put k p).addresses = K.addresses := by cases p <;> rfl

theorem handed_put : (K.put k p).handed = K.handed := by cases p <;> rfl

theorem returned_put (h : K.returned.Nodup) (hk : ¬ K.Has k .returned) : (K.put k p).returned.Nodup := by
  cases p with
  | returned => exact List.nodup_cons.2 ⟨hk, h⟩
  | bound n id => exact h
  | destroyed => exact h

theorem destroyed_put (h : K.destroyed.Nodup) (hk : ¬ K.Has k .destroyed) : (K.put k p).destroyed.Nodup := by
  cases p with
  | destroyed => exact List.nodup_cons.2 ⟨hk, h⟩
  | bound n id => exact h
  | returned => exact h

/-- A value that is handed over comes to a place. -/
theorem moved_handOver (n : CellId) (id : SlotId) (hK : K.Settled)
    (free : ∀ n id, p = .bound n id → K.bound n id = none) :
    K.Moved ((K.handOver n id).put K.handed p) K.handed p := by
  intro j q
  refine (has_put (K := K.handOver n id) free).trans ?_
  change q = p ∧ j = K.handed ∨ K.Has j q ↔ _
  split
  · rename_i hj
    subst hj
    exact ⟨fun h => (h.resolve_right hK.not_has_handed).1, fun h => .inl ⟨h, rfl⟩⟩
  · rename_i hj
    exact ⟨fun h => h.resolve_left fun heq => hj heq.2, .inr⟩

/-- A value that is bound leaves its place for another. -/
theorem moved_clear (hK : K.Settled) (here : K.Has k (.bound n id)) (unbound : ∀ n id, p ≠ .bound n id) :
    K.Moved ((K.clear n id).put k p) k p := by
  intro j q
  rw [has_put fun n id hp => absurd hp (unbound n id), has_clear]
  split
  · rename_i hj
    subst hj
    refine ⟨fun h => ?_, fun h => .inl ⟨h, rfl⟩⟩
    rcases h with ⟨hq, -⟩ | ⟨hne, hq⟩
    · exact hq
    · exact absurd (hK.one j _ _ hq here) hne
  · rename_i hj
    refine ⟨fun h => (h.resolve_left fun heq => hj heq.2).2, fun h => .inr ⟨fun hq => hj ?_, h⟩⟩
    subst hq
    exact Option.some.inj (h.symm.trans here)

/-! ### Every value stays in one place -/

theorem settled_handOver (hK : K.Settled) (free : ∀ n id, p = .bound n id → K.bound n id = none) :
    ((K.handOver n id).put K.handed p).Settled := by
  have hmoved := moved_handOver n id hK free
  refine ⟨fun j => ?_, hmoved.one hK, returned_put hK.returned (hK.not_has_handed (p := .returned)),
    destroyed_put hK.destroyed (hK.not_has_handed (p := .destroyed))⟩
  rw [handed_put]
  change _ ↔ j < K.handed + 1
  by_cases hj : j = K.handed
  · subst hj
    exact iff_of_true ⟨p, hmoved.has⟩ (Nat.lt_succ_self _)
  · simp only [hmoved.has_of_ne hj, hK.placed j]
    omega

theorem settled_clear (hK : K.Settled) (here : K.Has k (.bound n id)) (unbound : ∀ n id, p ≠ .bound n id) :
    ((K.clear n id).put k p).Settled := by
  have hmoved := moved_clear hK here unbound
  have hnot : ∀ q, q ≠ .bound n id → ¬ K.Has k q := fun q hq h => hq (hK.one k q _ h here)
  refine ⟨fun j => ?_, hmoved.one hK, returned_put hK.returned (hnot _ (Place.returned_ne_bound n id)),
    destroyed_put hK.destroyed (hnot _ (Place.destroyed_ne_bound n id))⟩
  rw [handed_put]
  change _ ↔ j < K.handed
  by_cases hj : j = k
  · subst hj
    exact iff_of_true ⟨p, hmoved.has⟩ (hK.lt here)
  · simp only [hmoved.has_of_ne hj, hK.placed j]

end Custody

/-! ### The custody of a world -/

namespace Entry

def returned? : Entry α → Option Nat
  | returned k => some k
  | _ => none

def destroyed? : Entry α → Option Nat
  | destroyed k => some k
  | _ => none

def address? : Entry α → Option (Nat × CellId × SlotId)
  | handed k n id => some (k, n, id)
  | _ => none

/-- An entry that tells of no value. -/
def isSilent : Entry α → Bool
  | created _ | closed _ | event _ _ _ _ | note _ _ => true
  | handed _ _ _ | returned _ | destroyed _ => false

theorem isSilent_of_isPlain {e : Entry α} (h : e.isPlain) : e.isSilent := by
  cases e <;> first | rfl | exact h

end Entry

section Silent

variable {news : List (Entry α)}

/-- Nothing of a value is read in news that tells of none. -/
theorem filterMap_of_silent {β : Type} {f : Entry α → Option β} (hf : ∀ e, e.isSilent → f e = none)
    (silent : ∀ e ∈ news, e.isSilent) : news.filterMap f = [] :=
  List.filterMap_eq_nil_iff.2 fun e he => hf e (silent e he)

theorem returned?_of_silent (silent : ∀ e ∈ news, e.isSilent) : news.filterMap Entry.returned? = [] :=
  filterMap_of_silent (fun e he => by cases e <;> first | rfl | cases he) silent

theorem destroyed?_of_silent (silent : ∀ e ∈ news, e.isSilent) : news.filterMap Entry.destroyed? = [] :=
  filterMap_of_silent (fun e he => by cases e <;> first | rfl | cases he) silent

theorem address?_of_silent (silent : ∀ e ∈ news, e.isSilent) : news.filterMap Entry.address? = [] :=
  filterMap_of_silent (fun e he => by cases e <;> first | rfl | cases he) silent

theorem countP_of_silent (silent : ∀ e ∈ news, e.isSilent) : news.countP Entry.isHanded = 0 :=
  List.countP_eq_zero.2 fun e he => by
    have := silent e he
    cases e <;> simp_all [Entry.isSilent, Entry.isHanded]

end Silent

namespace World

/-- The value bound to an id of a cell. -/
def valueAt (w : World α) (n : CellId) (id : SlotId) : Option (Stored α) := (w.registryAt n).get? id

/-- Where the values are: what the registries hold, and what the journal tells. -/
def custody (w : World α) : Custody where
  bound n id := ((w.registryAt n).get? id).map Stored.serial
  returned := w.journal.filterMap Entry.returned?
  destroyed := w.journal.filterMap Entry.destroyed?
  addresses := w.journal.filterMap Entry.address?
  handed := w.handed

variable {w w' : World α} {n : CellId} {id : SlotId} {r : Registry (Stored α)} {news : List (Entry α)} {s : Stored α}
  {k : Nat}

theorem valueAt_eq_some : w.valueAt n id = some s ↔ (w.registryAt n).slot? id = some (.occupied s) :=
  Registry.get?_eq_some

theorem valueAt_eq_none : w.valueAt n id = none ↔ ∀ s, (w.registryAt n).slot? id ≠ some (.occupied s) :=
  Registry.get?_eq_none

theorem valueAt_of_gone (h : (w.registryAt n).slot? id = none) : w.valueAt n id = none :=
  valueAt_eq_none.2 fun s hs => by rw [h] at hs; cases hs

theorem valueAt_of_missing (h : w.cells[n]? = none) : w.valueAt n id = none := by
  rw [valueAt, registryAt_of_none h, Registry.get?_empty]

theorem has_bound (h : w.valueAt n id = some s) : w.custody.Has s.serial (.bound n id) :=
  congrArg (Option.map Stored.serial) h

theorem exists_of_has_bound (h : w.custody.Has k (.bound n id)) : ∃ s, w.valueAt n id = some s ∧ s.serial = k :=
  Option.map_eq_some_iff.1 h

theorem silent_nil : ∀ x ∈ ([] : List (Entry α)), x.isSilent := nofun

theorem silent_news {e : Event} {t : Thread} {lock : Lock} : ∀ x ∈ w.news e n t lock, x.isSilent := by
  intro x hx
  rw [news] at hx
  split at hx
  · rw [List.mem_singleton.1 hx]
    rfl
  · cases hx

/-- When no value changes and the news tells of none, every value stays where it is. -/
theorem custody_eq (values : ∀ m x, w'.valueAt m x = w.valueAt m x)
    (journal : w'.journal = news ++ w.journal) (silent : ∀ e ∈ news, e.isSilent) (handed : w'.handed = w.handed) :
    w'.custody = w.custody := by
  refine Custody.ext ?_ ?_ ?_ ?_ handed
  · funext m x
    exact congrArg (Option.map Stored.serial) (values m x)
  · simp only [custody, journal, List.filterMap_append, returned?_of_silent silent, List.nil_append]
  · simp only [custody, journal, List.filterMap_append, destroyed?_of_silent silent, List.nil_append]
  · simp only [custody, journal, List.filterMap_append, address?_of_silent silent, List.nil_append]

theorem Writes.valueAt (h : w.Writes w' n r news) (m : CellId) (x : SlotId) :
    w'.valueAt m x = if n = m then r.get? x else w.valueAt m x := by
  rw [World.valueAt, h.registry]
  split <;> rfl

theorem Writes.valueAt_same (h : w.Writes w' n r news) (values : ∀ x, r.get? x = (w.registryAt n).get? x) (m : CellId)
    (x : SlotId) : w'.valueAt m x = w.valueAt m x := by
  rw [h.valueAt, values]
  split
  · rename_i hm
    rw [← hm]
    rfl
  · rfl

theorem Writes.custody_eq (h : w.Writes w' n r news) (values : ∀ x, r.get? x = (w.registryAt n).get? x)
    (silent : ∀ e ∈ news, e.isSilent) : w'.custody = w.custody :=
  World.custody_eq (h.valueAt_same values) h.journal silent (by rw [h.handed, countP_of_silent silent]; rfl)

theorem Writes.valueAt_stored (h : w.Writes w' n ((w.registryAt n).withSlot id (.occupied s)) news) (m : CellId)
    (x : SlotId) : w'.valueAt m x = if n = m ∧ id = x then some s else w.valueAt m x := by
  rw [h.valueAt, Registry.get?_withSlot]
  by_cases hm : n = m
  · subst hm
    by_cases hx : id = x
    · rw [if_pos rfl, if_pos hx, if_pos ⟨rfl, hx⟩]
      rfl
    · rw [if_pos rfl, if_neg hx, if_neg fun h => hx h.2]
      rfl
  · rw [if_neg hm, if_neg fun h => hm h.1]

theorem Writes.valueAt_removed (h : w.Writes w' n ((w.registryAt n).remove id) news) (m : CellId) (x : SlotId) :
    w'.valueAt m x = if n = m ∧ id = x then none else w.valueAt m x := by
  rw [h.valueAt, Registry.get?_remove]
  by_cases hm : n = m
  · subst hm
    by_cases hx : id = x
    · rw [if_pos rfl, if_pos hx, if_pos ⟨rfl, hx⟩]
    · rw [if_pos rfl, if_neg hx, if_neg fun h => hx h.2]
      rfl
  · rw [if_neg hm, if_neg fun h => hm h.1]

/-- A value is handed over and bound. -/
theorem custody_store {v : Value α (Program α)}
    (h : w.Writes w' n ((w.registryAt n).withSlot id (.occupied ⟨w.handed, v⟩)) (news ++ [.handed w.handed n id]))
    (silent : ∀ e ∈ news, e.isSilent) : w'.custody = (w.custody.handOver n id).put w.handed (.bound n id) := by
  refine Custody.ext ?_ ?_ ?_ ?_ ?_
  · funext m x
    change (w'.valueAt m x).map Stored.serial =
      if n = m ∧ id = x then some w.handed else (w.valueAt m x).map Stored.serial
    rw [h.valueAt_stored]
    split <;> rfl
  · simp only [custody, h.journal, List.filterMap_append, returned?_of_silent silent]
    rfl
  · simp only [custody, h.journal, List.filterMap_append, destroyed?_of_silent silent]
    rfl
  · simp only [custody, h.journal, List.filterMap_append, address?_of_silent silent]
    rfl
  · change w'.handed = w.handed + 1
    rw [h.handed, List.countP_append, countP_of_silent silent]
    rfl

/-- A value is handed over and destroyed. -/
theorem custody_refuse (h : w.Keeps w' [.destroyed w.handed, .handed w.handed n id]) :
    w'.custody = (w.custody.handOver n id).put w.handed .destroyed := by
  refine Custody.ext ?_ ?_ ?_ ?_ (h n).handed
  · funext m x
    exact congrArg (fun r => (r.get? x).map Stored.serial) (h.registry m)
  · simp only [custody, (h n).journal, List.filterMap_append]
    rfl
  · simp only [custody, (h n).journal, List.filterMap_append]
    rfl
  · simp only [custody, (h n).journal, List.filterMap_append]
    rfl

theorem Writes.bound_remove (h : w.Writes w' n ((w.registryAt n).remove id) news) :
    w'.custody.bound = (w.custody.clear n id).bound := by
  funext m x
  change (w'.valueAt m x).map Stored.serial = if n = m ∧ id = x then none else (w.valueAt m x).map Stored.serial
  rw [h.valueAt_removed]
  split <;> rfl

/-- A value is removed, and is given back or destroyed. -/
theorem custody_left {e : Entry α} {p : Place} (h : w.Writes w' n ((w.registryAt n).remove id) (e :: news))
    (silent : ∀ e ∈ news, e.isSilent)
    (leaves : e = .returned k ∧ p = .returned ∨ e = .destroyed k ∧ p = .destroyed) :
    w'.custody = (w.custody.clear n id).put k p := by
  have hreturned : w'.custody.returned = e.returned?.toList ++ w.custody.returned := by
    simp only [custody, h.journal, List.filterMap_append, List.filterMap_cons, returned?_of_silent silent]
    cases e.returned? <;> rfl
  have hdestroyed : w'.custody.destroyed = e.destroyed?.toList ++ w.custody.destroyed := by
    simp only [custody, h.journal, List.filterMap_append, List.filterMap_cons, destroyed?_of_silent silent]
    cases e.destroyed? <;> rfl
  have haddresses : w'.custody.addresses = e.address?.toList ++ w.custody.addresses := by
    simp only [custody, h.journal, List.filterMap_append, List.filterMap_cons, address?_of_silent silent]
    cases e.address? <;> rfl
  have hhanded : w'.custody.handed = w.custody.handed + [e].countP Entry.isHanded := by
    change w'.handed = w.handed + _
    rw [h.handed, ← List.singleton_append, List.countP_append, countP_of_silent silent]
    rfl
  rcases leaves with ⟨rfl, rfl⟩ | ⟨rfl, rfl⟩
  · exact Custody.ext h.bound_remove hreturned hdestroyed haddresses hhanded
  · exact Custody.ext h.bound_remove hreturned hdestroyed haddresses hhanded

end World

end SlotRegistry
