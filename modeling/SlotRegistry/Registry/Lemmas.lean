import SlotRegistry.Registry.Basic
/-!
# What each request does to the slots

Two registries with the same slots and the same cursor are equal, so a request is told by the slot of every id after
it. The lemmas give these slots for each request, and the condition under which it is refused.
-/
namespace SlotRegistry
namespace Registry

variable {α : Type} {r s : Registry α} {id x : SlotId} {v : α}

@[ext] theorem ext (hs : ∀ id, r.slot? id = s.slot? id) (hc : r.cursor = s.cursor) : r = s := by
  obtain ⟨rs, rc⟩ := r; obtain ⟨ss, sc⟩ := s
  cases (Std.ExtTreeMap.ext_getElem? hs : rs = ss); cases (hc : rc = sc); rfl

theorem contains_eq : r.contains id = (r.slot? id).isSome := Std.ExtTreeMap.contains_eq_isSome_getElem?

theorem mem_ids : id ∈ r.ids ↔ (r.slot? id).isSome := by
  rw [ids, Std.ExtTreeMap.mem_keys, ← Std.ExtTreeMap.contains_iff_mem, slot?,
    Std.ExtTreeMap.contains_eq_isSome_getElem?]

@[simp] theorem slot?_empty : (empty : Registry α).slot? id = none := by simp [empty, slot?]

@[simp] theorem cursor_empty : (empty : Registry α).cursor = 0 := rfl

/-! ### Removal -/

@[simp] theorem slot?_remove : (r.remove id).slot? x = if id = x then none else r.slot? x := by
  simp [remove, slot?, Std.ExtTreeMap.getElem?_erase]

@[simp] theorem cursor_remove : (r.remove id).cursor = r.cursor := rfl

theorem remove_of_absent (h : r.slot? id = none) : r.remove id = r := by
  refine ext (fun x => ?_) rfl
  rw [slot?_remove]
  split
  · rename_i hx
    rw [← hx, h]
  · rfl

theorem take_of_occupied (h : r.slot? id = some (.occupied v)) : r.take id = .ok (v, r.remove id) := by
  rw [take, h]; rfl

theorem take_of_reserved (h : r.slot? id = some .reserved) : r.take id = .error (.unset id) := by rw [take, h]

theorem take_of_absent (h : r.slot? id = none) : r.take id = .error (.absent id) := by rw [take, h]

/-! ### Binding -/

/-- The registry with a slot put under an id. -/
def withSlot (r : Registry α) (id : SlotId) (slot : Slot α) : Registry α := { r with slots := r.slots.insert id slot }

@[simp] theorem slot?_withSlot {slot : Slot α} :
    (r.withSlot id slot).slot? x = if id = x then some slot else r.slot? x := by
  simp [withSlot, slot?, Std.ExtTreeMap.getElem?_insert]

@[simp] theorem cursor_withSlot {slot : Slot α} : (r.withSlot id slot).cursor = r.cursor := rfl

theorem remove_withSlot {slot : Slot α} : (r.withSlot id slot).remove id = r.remove id := by
  refine ext (fun x => ?_) rfl
  rw [slot?_remove, slot?_remove, slot?_withSlot]
  split <;> rfl

theorem insert_of_absent (h : r.slot? id = none) : r.insert id v = .ok (r.withSlot id (.occupied v)) := by
  simp [insert, contains_eq, h, withSlot]

theorem insert_of_present (h : (r.slot? id).isSome) : r.insert id v = .error (.taken id) := by
  simp [insert, contains_eq, h]

theorem fill_of_reserved (h : r.slot? id = some .reserved) : r.fill id v = .ok (r.withSlot id (.occupied v)) := by
  rw [fill, h]; rfl

theorem fill_of_occupied {w : α} (h : r.slot? id = some (.occupied w)) : r.fill id v = .error (.taken id) := by
  rw [fill, h]

theorem fill_of_absent (h : r.slot? id = none) : r.fill id v = .error (.unreserved id) := by rw [fill, h]

theorem insert_eq_ok (h : r.insert id v = .ok s) : r.slot? id = none ∧ s = r.withSlot id (.occupied v) := by
  cases hs : r.slot? id with
  | none =>
    rw [insert_of_absent hs] at h
    cases h
    exact ⟨rfl, rfl⟩
  | some slot =>
    rw [insert_of_present (by rw [hs]; rfl)] at h
    cases h

theorem fill_eq_ok (h : r.fill id v = .ok s) : r.slot? id = some .reserved ∧ s = r.withSlot id (.occupied v) := by
  cases hs : r.slot? id with
  | none =>
    rw [fill_of_absent hs] at h
    cases h
  | some slot =>
    cases slot with
    | reserved =>
      rw [fill_of_reserved hs] at h
      cases h
      exact ⟨rfl, rfl⟩
    | occupied w =>
      rw [fill_of_occupied hs] at h
      cases h

/-! ### The value of an id -/

theorem get?_eq_some : r.get? id = some v ↔ r.slot? id = some (.occupied v) := by
  rw [get?, Option.bind_eq_some_iff]
  constructor
  · rintro ⟨slot, hs, hv⟩
    cases slot with
    | reserved => cases hv
    | occupied w => cases hv; exact hs
  · exact fun hs => ⟨_, hs, rfl⟩

theorem get?_eq_none : r.get? id = none ↔ ∀ v, r.slot? id ≠ some (.occupied v) := by
  rw [Option.eq_none_iff_forall_ne_some]
  exact forall_congr' fun v => not_congr get?_eq_some

@[simp] theorem get?_empty : (empty : Registry α).get? id = none := by rw [get?, slot?_empty]; rfl

theorem get?_remove : (r.remove id).get? x = if id = x then none else r.get? x := by
  rw [get?, slot?_remove]
  split <;> rfl

theorem get?_withSlot {slot : Slot α} : (r.withSlot id slot).get? x = if id = x then slot.value? else r.get? x := by
  rw [get?, slot?_withSlot]
  split <;> rfl

/-! ### Reservation -/

theorem reserve_of_some (h : r.firstAbsentAfter r.cursor (SlotId.count - 1) = some id) :
    r.reserve = .ok (id, { r.withSlot id .reserved with cursor := id }) := by
  rw [reserve, h]; rfl

theorem reserve_of_none (h : r.firstAbsentAfter r.cursor (SlotId.count - 1) = none) :
    r.reserve = .error .noneLeft := by rw [reserve, h]

end Registry

end SlotRegistry
