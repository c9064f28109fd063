import Mathlib.Data.Finset.Card
import Mathlib.Data.List.Rotate
import SlotRegistry.Proofs.Registry.FullTurn
import SlotRegistry.Proofs.Registry.Draining
/-!
# Churn — reserving an id and freeing it again, round after round

A round reserves an id and frees that id again.  It leaves the slots as they were and the cursor at the id, so the list
of absent ids by distance from the cursor is turned by one place: what stood first comes last.  So the rounds hand out
the absent ids in turn (`churn_is_round_robin`).  The id that the cursor stands at is no candidate; when it is the only
one absent, nothing is handed out any more.
-/
namespace SlotRegistry

/-- How an id that has been reserved is freed again: while it is reserved, or once a value has been bound to it. -/
inductive Freeing (α : Type)
  | remove
  | fillAndTake (v : α)
  | fillAndRemove (v : α)

/-- The acts that free an id. -/
def Freeing.acts {α : Type} (id : SlotId) : Freeing α → List (Act α)
  | .remove => [.remove id]
  | .fillAndTake v => [.fill id v, .take id]
  | .fillAndRemove v => [.fill id v, .remove id]

namespace SlotId

variable {x y z : SlotId}

theorem distance_self : x.distance x = count := by
  have hx : x.toNat < count := x.toNat_lt
  rw [distance]
  simp only [count] at hx ⊢
  omega

/-- Between two ids lies the difference of their distances. -/
theorem distance_of_lt (h : z.distance x < z.distance y) : x.distance y = z.distance y - z.distance x := by
  have hx : x.toNat < count := x.toNat_lt
  have hy : y.toNat < count := y.toNat_lt
  have hz : z.toNat < count := z.toNat_lt
  rw [distance, distance] at h
  rw [distance, distance, distance]
  simp only [count] at hx hy hz h ⊢
  omega

end SlotId

namespace Registry

variable {α : Type}

/-- Reserves an id and frees it again; when the reservation is refused that is all.  What the reservation came to, and
the registry after the round. -/
def round (r : Registry α) (f : Freeing α) : Except Refusal SlotId × Registry α :=
  match r.reserve with
  | .ok (id, s) => (.ok id, s.afterAll (f.acts id))
  | .error why => (.error why, r)

/-- The registry after `n` rounds, which free their ids in the ways told. -/
def churned (r : Registry α) (ways : Nat → Freeing α) : Nat → Registry α
  | 0 => r
  | n + 1 => ((r.churned ways n).round (ways n)).2

/-- What the reservation of the round after `n` others comes to. -/
def handed (r : Registry α) (ways : Nat → Freeing α) (n : Nat) : Except Refusal SlotId :=
  ((r.churned ways n).round (ways n)).1

variable {r s : Registry α} {id x : SlotId} {ids : List SlotId} {f : Freeing α} {ways : Nat → Freeing α} {n m : Nat}
  {why : Refusal}

/-! ### One round -/

/-- The registry with the cursor at an id. -/
def withCursor (r : Registry α) (id : SlotId) : Registry α := { r with cursor := id }

/-- Freeing the id that has just been reserved undoes all but the move of the cursor. -/
theorem afterAll_acts (h : r.reserve = .ok (id, s)) : s.afterAll (f.acts id) = r.withCursor id := by
  have absent := (reserve_eq_ok h).1
  have hreserved : s.slot? id = some .reserved := by rw [slot?_of_reserve h, if_pos rfl]
  have hbound : ∀ v, s.after (.fill id v) = s.withSlot id (.occupied v) := fun v => by
    rw [after, fill_of_reserved hreserved]
  have hremove : s.remove id = r.withCursor id := by
    refine ext (fun x => ?_) (show s.cursor = id from cursor_of_reserve h)
    rw [slot?_remove, slot?_of_reserve h]
    split
    · rename_i hx
      exact absent.symm.trans (congrArg r.slot? hx)
    · rfl
  cases f with
  | remove => exact hremove
  | fillAndTake v =>
    have hocc : (s.withSlot id (.occupied v)).slot? id = some (.occupied v) := slot?_withSlot.trans (if_pos rfl)
    have htake : (s.withSlot id (.occupied v)).after (.take id) = (s.withSlot id (.occupied v)).remove id := by
      rw [after, take_of_occupied hocc]
    calc s.afterAll [.fill id v, .take id] = (s.after (.fill id v)).after (.take id) := rfl
      _ = s.remove id := by rw [hbound, htake, remove_withSlot]
      _ = r.withCursor id := hremove
  | fillAndRemove v =>
    calc s.afterAll [.fill id v, .remove id] = (s.after (.fill id v)).remove id := rfl
      _ = s.remove id := by rw [hbound, remove_withSlot]
      _ = r.withCursor id := hremove

theorem round_of_granted (h : r.reserve = .ok (id, s)) : r.round f = (.ok id, r.withCursor id) := by
  rw [round, h]
  exact congrArg (Prod.mk _) (afterAll_acts h)

theorem round_of_refused (h : r.reserve = .error why) : r.round f = (.error why, r) := by rw [round, h]

/-- **A round leaves the slots as they were.** -/
theorem slots_round : (r.round f).2.slots = r.slots := by
  cases h : r.reserve with
  | error why => rw [round_of_refused h]
  | ok p =>
    rw [round_of_granted h]
    rfl

/-- **With the cursor at the first of the absent ids, they are turned by one place.** -/
theorem absentIds_withCursor (h : r.absentIds = id :: ids) : (r.withCursor id).absentIds = ids ++ [id] := by
  have hsorted := r.pairwise_absentIds
  have hnodup := r.nodup_absentIds
  rw [h] at hsorted hnodup
  obtain ⟨hfirst, hrest⟩ := List.pairwise_cons.1 hsorted
  have hperm : (r.withCursor id).absentIds.Perm (ids ++ [id]) := by
    refine (List.perm_ext_iff_of_nodup (nodup_absentIds _) ((List.perm_append_singleton id ids).nodup_iff.2 hnodup)).2
      fun x => ?_
    rw [(List.perm_append_singleton id ids).mem_iff, ← h, mem_absentIds, mem_absentIds]
    rfl
  -- seen from the first, the others lie nearer by the same distance each, and it lies a full turn ahead of itself
  have hnear : ∀ x ∈ ids, id.distance x = r.cursor.distance x - r.cursor.distance id := fun x hx =>
    SlotId.distance_of_lt (hfirst x hx)
  have hturned : (ids ++ [id]).Pairwise fun x y => id.distance x < id.distance y := by
    refine List.pairwise_append.2 ⟨hrest.imp_of_mem fun {x y} hx hy hxy => ?_, List.pairwise_singleton _ _,
      fun x hx y hy => ?_⟩
    · have hlt := hfirst x hx
      rw [hnear x hx, hnear y hy]
      omega
    · have hle : r.cursor.distance x ≤ SlotId.count := SlotId.distance_le
      have hpos : 0 < r.cursor.distance id := SlotId.distance_pos
      have hlt := hfirst x hx
      rw [List.mem_singleton.1 hy, SlotId.distance_self, hnear x hx]
      omega
  exact hperm.eq_of_pairwise (fun x y _ _ hxy hyx => absurd (Nat.lt_trans hxy hyx) (Nat.lt_irrefl _))
    (pairwise_absentIds (r.withCursor id)) hturned

/-- **A round with two ids absent hands out the first of them**, which is not the cursor's own. -/
theorem round_of_two (h : 2 ≤ r.absentIds.length) : ∃ id ids, r.absentIds = id :: ids ∧ id ≠ r.cursor ∧
    (∀ f, r.round f = (.ok id, r.withCursor id)) := by
  match hids : r.absentIds with
  | [] | [_] => rw [hids] at h; simp at h
  | id :: y :: ids =>
    have hsorted := r.pairwise_absentIds
    rw [hids] at hsorted
    have hne : id ≠ r.cursor := by
      intro heq
      have hlt := (List.pairwise_cons.1 hsorted).1 y List.mem_cons_self
      have hle : r.cursor.distance y ≤ SlotId.count := SlotId.distance_le
      rw [heq, SlotId.distance_self] at hlt
      omega
    have absent : r.slot? id = none := mem_absentIds.1 (by rw [hids]; exact List.mem_cons_self)
    obtain ⟨s, hdrains⟩ := drains_absentIds ⟨id, hne, absent⟩
    rw [hids] at hdrains
    cases hdrains with
    | next granted rest => exact ⟨id, y :: ids, rfl, hne, fun f => round_of_granted granted⟩

/-! ### Many rounds -/

theorem slots_churned : ∀ n, (r.churned ways n).slots = r.slots
  | 0 => rfl
  | n + 1 => slots_round.trans (slots_churned n)

theorem slot?_churned : (r.churned ways n).slot? x = r.slot? x := by rw [slot?, slots_churned, slot?]

/-- Once a reservation has been refused, nothing changes any more. -/
theorem churned_of_refused (h : (r.churned ways m).reserve = .error why) :
    ∀ n, r.churned ways (m + n) = r.churned ways m
  | 0 => rfl
  | n + 1 => by
    have ih := churned_of_refused h n
    have hstep : r.churned ways (m + (n + 1)) = ((r.churned ways (m + n)).round (ways (m + n))).2 := rfl
    rw [hstep, ih, round_of_refused h]

/-- After `n` rounds the absent ids have been turned by `n` places. -/
theorem absentIds_churned (h : 2 ≤ r.absentIds.length) : ∀ n, (r.churned ways n).absentIds = r.absentIds.rotate n
  | 0 => (List.rotate_zero _).symm
  | n + 1 => by
    have ih := absentIds_churned h n
    obtain ⟨id, ids, hids, -, hround⟩ := round_of_two (r := r.churned ways n) (by rw [ih, List.length_rotate]; exact h)
    have hstep : r.churned ways (n + 1) = (r.churned ways n).withCursor id := by rw [churned, hround]
    rw [hstep, absentIds_withCursor hids, ← List.rotate_rotate, ← ih, hids, List.rotate_cons_succ, List.rotate_zero]

/-- The round after `n` others hands out the first of the absent ids. -/
theorem handed_of_two (ways : Nat → Freeing α) (h : 2 ≤ r.absentIds.length) (n : Nat) :
    ∃ id ids, (r.churned ways n).absentIds = id :: ids ∧ id ≠ (r.churned ways n).cursor ∧ r.handed ways n = .ok id ∧
      (r.churned ways (n + 1)).cursor = id := by
  obtain ⟨id, ids, hids, hne, hround⟩ := round_of_two (r := r.churned ways n)
    (by rw [absentIds_churned h, List.length_rotate]; exact h)
  exact ⟨id, ids, hids, hne, by rw [handed, hround], by rw [churned, hround]; rfl⟩

/-- As many rounds as there are absent ids hand them all out in turn, wherever they start. -/
theorem handed_add (h : 2 ≤ r.absentIds.length) {i : Nat} (hi : i < (r.churned ways m).absentIds.length) :
    r.handed ways (m + i) = .ok (r.churned ways m).absentIds[i] := by
  obtain ⟨id, ids, hids, -, hhanded, -⟩ := handed_of_two ways h (m + i)
  have hrotate : (r.churned ways (m + i)).absentIds = (r.churned ways m).absentIds.rotate i := by
    rw [absentIds_churned h, absentIds_churned h, List.rotate_rotate]
  have hhead := List.head?_rotate hi
  rw [← hrotate, hids, List.head?_cons, List.getElem?_eq_getElem hi, Option.some.injEq] at hhead
  rw [hhanded, hhead]

/-- Any that many rounds in a row hand out each absent id just once. -/
theorem existsUnique_handed (h : 2 ≤ r.absentIds.length) (absent : r.slot? x = none) (m : Nat) :
    ∃! n, m ≤ n ∧ n < m + r.absentIds.length ∧ r.handed ways n = .ok x := by
  have hlength : (r.churned ways m).absentIds.length = r.absentIds.length := by
    rw [absentIds_churned h, List.length_rotate]
  have hmem : x ∈ (r.churned ways m).absentIds := mem_absentIds.2 (slot?_churned.trans absent)
  obtain ⟨i, hi, hx⟩ := List.getElem_of_mem hmem
  refine ⟨m + i, ⟨Nat.le_add_right m i, by omega, by rw [handed_add h hi, hx]⟩, fun n ⟨hle, hlt, hn⟩ => ?_⟩
  obtain ⟨j, rfl⟩ := Nat.exists_eq_add_of_le hle
  have hj : j < (r.churned ways m).absentIds.length := by omega
  rw [handed_add h hj, ← hx, Except.ok.injEq, (nodup_absentIds _).getElem_inj_iff] at hn
  rw [hn]

/-- With only one id absent, and the cursor elsewhere, the id is handed out once and never again. -/
theorem handed_of_one (ways : Nat → Freeing α) (absent : r.slot? x = none) (only : ∀ y, r.slot? y = none → y = x)
    (hx : x ≠ r.cursor) : r.handed ways 0 = .ok x ∧ ∀ n, r.handed ways (n + 1) = .error .noneLeft := by
  obtain ⟨s, hdrains⟩ := drains_absentIds ⟨x, hx, absent⟩
  match hids : r.absentIds with
  | [] =>
    have hmem := mem_absentIds.2 absent
    rw [hids] at hmem
    cases hmem
  | id :: ids =>
    rw [hids] at hdrains
    cases hdrains with
    | next granted rest =>
      obtain rfl : id = x := only id (mem_absentIds.1 (by rw [hids]; exact List.mem_cons_self))
      have hfirst : r.churned ways (0 + 1) = r.withCursor id := by
        rw [churned, churned, round_of_granted granted]
      have hrefused : (r.churned ways (0 + 1)).reserve = .error .noneLeft := by
        rw [hfirst]
        exact reserve_eq_error_iff.2 ⟨rfl, only⟩
      refine ⟨by rw [handed, churned, round_of_granted granted], fun n => ?_⟩
      rw [handed, Nat.add_comm n 1, churned_of_refused hrefused, round_of_refused hrefused]

/-! ### The main result -/

/-- **Churn is round-robin.**  Every round leaves the slots as they were.  With two ids absent or more, each round hands
out the absent id that is next after the cursor, so that as many rounds in a row as there are absent ids hand out each
just once.  With one absent, which is not the cursor's, the first round hands it out and all others are refused; with
none absent but the cursor's own, all rounds are refused. -/
theorem churn_is_round_robin {A : Finset SlotId} (hA : ∀ x, x ∈ A ↔ r.slot? x = none) (ways : Nat → Freeing α) :
    (∀ n, (r.churned ways n).slots = r.slots) ∧
    (2 ≤ A.card →
      (∀ n, ∃ id ∈ A, r.handed ways n = .ok id ∧ (r.churned ways (n + 1)).cursor = id ∧
        id ≠ (r.churned ways n).cursor ∧
        ∀ x ∈ A, x ≠ id → (r.churned ways n).cursor.distance id < (r.churned ways n).cursor.distance x) ∧
      ∀ m, ∀ x ∈ A, ∃! n, m ≤ n ∧ n < m + A.card ∧ r.handed ways n = .ok x) ∧
    (∀ x, A = {x} → x ≠ r.cursor → r.handed ways 0 = .ok x ∧
      ∀ n, r.handed ways (n + 1) = .error .noneLeft ∧ (r.churned ways (n + 1)).slot? x = none) ∧
    (A = ∅ ∨ A = {r.cursor} → ∀ n, r.handed ways n = .error .noneLeft) := by
  have hcard : A.card = r.absentIds.length := by
    rw [← List.toFinset_card_of_nodup r.nodup_absentIds]
    refine congrArg Finset.card (Finset.ext fun x => ?_)
    rw [hA, List.mem_toFinset, mem_absentIds]
  refine ⟨slots_churned, fun htwo => ?_, fun x hx hne => ?_, fun hnone n => ?_⟩
  · rw [hcard] at htwo ⊢
    refine ⟨fun n => ?_, fun m x hx => existsUnique_handed htwo ((hA x).1 hx) m⟩
    obtain ⟨id, ids, hids, hne, hhanded, hcursor⟩ := handed_of_two ways htwo n
    have hmem : ∀ x, x ∈ id :: ids ↔ x ∈ A := fun x => by rw [← hids, mem_absentIds, slot?_churned, hA]
    refine ⟨id, (hmem id).1 List.mem_cons_self, hhanded, hcursor, hne, fun x hx hxid => ?_⟩
    have hsorted := (r.churned ways n).pairwise_absentIds
    rw [hids] at hsorted
    exact (List.pairwise_cons.1 hsorted).1 x (List.mem_of_ne_of_mem hxid ((hmem x).2 hx))
  · subst hx
    have absent := (hA x).1 (Finset.mem_singleton_self x)
    obtain ⟨hfirst, hlater⟩ := handed_of_one ways absent
      (fun y hy => Finset.mem_singleton.1 ((hA y).2 hy)) hne
    exact ⟨hfirst, fun n => ⟨hlater n, slot?_churned.trans absent⟩⟩
  · have hrefused : (r.churned ways 0).reserve = .error .noneLeft := by
      refine reserve_eq_error_iff.2 ⟨rfl, fun x absent => ?_⟩
      have hx := (hA x).2 absent
      rcases hnone with rfl | rfl
      · cases hx
      · exact Finset.mem_singleton.1 hx
    have hround := churned_of_refused hrefused n
    rw [Nat.zero_add] at hround
    rw [handed, hround, round_of_refused hrefused]

/-- With ids 1 and 2 absent, the rounds hand out 1, 2 and 1 again, however each frees its id. -/
theorem churn_between_two :
    (∀ x, x ∈ ({1, 2} : Finset SlotId) ↔ twoLeft.slot? x = none) ∧
    twoLeft.handed (fun n => if n = 1 then .remove else .fillAndTake n) 0 = .ok 1 ∧
    twoLeft.handed (fun n => if n = 1 then .remove else .fillAndTake n) 1 = .ok 2 ∧
    twoLeft.handed (fun n => if n = 1 then .remove else .fillAndTake n) 2 = .ok 1 := by
  have hA : ∀ x, x ∈ ({1, 2} : Finset SlotId) ↔ twoLeft.slot? x = none := fun x => by
    rw [slot?_twoLeft, Finset.mem_insert, Finset.mem_singleton]
    split <;> simp_all
  generalize (fun n => if n = 1 then .remove else .fillAndTake n : Nat → Freeing Nat) = ways
  obtain ⟨hnext, -⟩ := (churn_is_round_robin hA ways).2.1 (by decide)
  have htwo : ∀ {id : SlotId}, id ∈ ({1, 2} : Finset SlotId) → id = 1 ∨ id = 2 := fun h => by simpa using h
  obtain ⟨a, ha, hhanded, hcursor, -, hnear⟩ := hnext 0
  obtain ⟨b, hb, hhanded', hcursor', hne, -⟩ := hnext 1
  obtain ⟨c, hc, hhanded'', -, hne', -⟩ := hnext 2
  rw [churned, cursor_twoLeft] at hnear
  obtain rfl : a = 1 := (htwo ha).resolve_right fun h => by
    subst h
    exact absurd (hnear 1 (by decide) (by decide)) (by decide)
  rw [hcursor] at hne
  obtain rfl : b = 2 := (htwo hb).resolve_left hne
  rw [hcursor'] at hne'
  obtain rfl : c = 1 := (htwo hc).resolve_right hne'
  exact ⟨hA, hhanded, hhanded', hhanded''⟩

end Registry

end SlotRegistry
