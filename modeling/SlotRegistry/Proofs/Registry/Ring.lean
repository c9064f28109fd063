import SlotRegistry.Registry.Lemmas
/-!
# Ring — the id a reservation claims

The ids follow each other round a ring.  A reservation claims the absent id at the least distance ahead of the cursor,
from 1 up to all ids but the cursor itself.
-/
namespace SlotRegistry

namespace SlotId

/-- The id that lies `k` places ahead on the ring. -/
def ahead (id : SlotId) (k : Nat) : SlotId := id + UInt16.ofNat k

theorem ahead_one (id : SlotId) : ahead id 1 = id + 1 := rfl

theorem ahead_succ (id : SlotId) (k : Nat) : ahead id (1 + k) = ahead (id + 1) k := by
  rw [ahead, ahead, UInt16.ofNat_add, UInt16.add_assoc]
  rfl

variable {x y : SlotId} {j k : Nat}

theorem toNat_ahead : (x.ahead k).toNat = (x.toNat + k) % count := by
  rw [ahead, UInt16.toNat_add, UInt16.toNat_ofNat']
  simp only [count, Nat.reducePow]
  omega

theorem ahead_zero : x.ahead 0 = x := UInt16.add_zero x

theorem ahead_ahead : (x.ahead j).ahead k = x.ahead (j + k) := by
  apply UInt16.toNat_inj.1
  rw [toNat_ahead, toNat_ahead, toNat_ahead]
  simp only [count]
  omega

/-- Who comes back to an id went round the ring. -/
theorem count_le_of_ahead_eq (hk : 0 < k) (h : x.ahead k = x) : count ≤ k := by
  have hx : x.toNat < count := x.toNat_lt
  have := congrArg UInt16.toNat h
  rw [toNat_ahead] at this
  simp only [count] at hx this ⊢
  omega

/-- Every other id lies at a distance of less than a full turn. -/
theorem exists_ahead (h : y ≠ x) : ∃ k, 0 < k ∧ k < count ∧ x.ahead k = y := by
  have hx : x.toNat < count := x.toNat_lt
  have hy : y.toNat < count := y.toNat_lt
  have hne : y.toNat ≠ x.toNat := fun heq => h (UInt16.toNat_inj.1 heq)
  refine ⟨(y.toNat + (count - x.toNat)) % count, ?_, ?_, UInt16.toNat_inj.1 ?_⟩
  · simp only [count] at hx hy ⊢
    omega
  · exact Nat.mod_lt _ (by decide)
  · rw [toNat_ahead]
    simp only [count] at hx hy ⊢
    omega

end SlotId

namespace Registry

variable {α : Type} {r : Registry α} {id x : SlotId}

/-- **The search for an absent id goes by distance.** -/
theorem firstAbsentAfter_eq : ∀ (n : Nat) (id : SlotId),
    r.firstAbsentAfter id n =
      ((List.range' 1 n).find? (fun k => (r.slot? (id.ahead k)).isNone)).map id.ahead
  | 0, _ => rfl
  | n + 1, id => by
    rw [firstAbsentAfter, contains_eq, List.range'_succ, List.find?_cons, SlotId.ahead_one]
    cases hs : r.slot? (id + 1) with
    | none => simp [SlotId.ahead_one]
    | some slot =>
      rw [← List.map_add_range', List.find?_map]
      simp only [Option.isSome_some, if_true, Option.isNone_some, Option.map_map, Function.comp_def]
      rw [firstAbsentAfter_eq n (id + 1)]
      simp only [SlotId.ahead_succ]

/-- What is claimed is absent, and every id at a smaller distance is present. -/
theorem firstAbsentAfter_eq_some_iff {n : Nat} :
    r.firstAbsentAfter id n = some x ↔
      ∃ k, 0 < k ∧ k ≤ n ∧ x = id.ahead k ∧ r.slot? x = none ∧ ∀ j, 0 < j → j < k → (r.slot? (id.ahead j)).isSome := by
  rw [firstAbsentAfter_eq, Option.map_eq_some_iff]
  constructor
  · rintro ⟨k, hk, rfl⟩
    obtain ⟨habsent, hmem, hbefore⟩ := List.find?_range'_eq_some.1 hk
    rw [List.mem_range'_1] at hmem
    refine ⟨k, hmem.1, by omega, rfl, Option.isNone_iff_eq_none.1 habsent, fun j hj hjk => ?_⟩
    simpa using hbefore j hj hjk
  · rintro ⟨k, hpos, hle, rfl, habsent, hbefore⟩
    refine ⟨k, List.find?_range'_eq_some.2 ⟨by rw [habsent]; rfl, ?_, fun j hj hjk => ?_⟩, rfl⟩
    · rw [List.mem_range'_1]
      omega
    · simpa using hbefore j hj hjk

theorem firstAbsentAfter_eq_none_iff {n : Nat} :
    r.firstAbsentAfter id n = none ↔ ∀ k, 0 < k → k ≤ n → (r.slot? (id.ahead k)).isSome := by
  rw [firstAbsentAfter_eq, Option.map_eq_none_iff, List.find?_range'_eq_none]
  refine forall_congr' fun k => ⟨fun h hpos hle => ?_, fun h hpos hlt => ?_⟩
  · simpa using h hpos (by omega)
  · simpa using h hpos (by omega)

/-- A reservation that is granted claims an absent id, and the cursor moves there. -/
theorem reserve_eq_ok {s : Registry α} (h : r.reserve = .ok (id, s)) :
    r.slot? id = none ∧ s = { r.withSlot id .reserved with cursor := id } := by
  cases hf : r.firstAbsentAfter r.cursor (SlotId.count - 1) with
  | none =>
    rw [reserve_of_none hf] at h
    cases h
  | some found =>
    rw [reserve_of_some hf] at h
    cases h
    obtain ⟨-, -, -, -, absent, -⟩ := firstAbsentAfter_eq_some_iff.1 hf
    exact ⟨absent, rfl⟩

/-- A reservation is refused only while every id other than the cursor is present. -/
theorem reserve_eq_error {why : Refusal} (h : r.reserve = .error why) (hx : x ≠ r.cursor) : (r.slot? x).isSome := by
  cases hf : r.firstAbsentAfter r.cursor (SlotId.count - 1) with
  | none =>
    obtain ⟨k, hpos, hlt, rfl⟩ := SlotId.exists_ahead hx
    exact firstAbsentAfter_eq_none_iff.1 hf k hpos (Nat.le_sub_one_of_lt hlt)
  | some found =>
    rw [reserve_of_some hf] at h
    cases h

end Registry

end SlotRegistry
