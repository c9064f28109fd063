import SlotRegistry.Proofs.Registry.Draining
/-!
# Commuting — acts that can trade places

An act on one id reads and writes the slot of that id only.  A reservation reads which ids are present from the one
after the cursor up to the one that it claims, and when it is refused, which ids other than the cursor are present; it
writes the slot that it claims and the cursor.  So two acts come to the same in either order when neither writes what
the other reads (`independent_acts_commute`).
-/
namespace SlotRegistry

/-- What an act gives back to who does it. -/
inductive Act.Reply (α : Type)
  | done
  | granted (id : SlotId)
  | value (v : α)
  /-- The slot that was removed, none when the id was absent. -/
  | slot (s : Option (Slot α))

namespace Act

variable {α : Type}

/-- The id an act is about, none for a reservation. -/
def id? : Act α → Option SlotId
  | .reserve => none
  | .insert id _ | .fill id _ | .take id | .remove id => some id

/-- The slot that an act on an id leaves there, from the slot before it. -/
def leaves : Act α → Option (Slot α) → Option (Slot α)
  | .insert _ v, none => some (.occupied v)
  | .fill _ v, some .reserved => some (.occupied v)
  | .take _, some (.occupied _) => none
  | .remove _, _ => none
  | .reserve, slot | .insert _ _, slot | .fill _ _, slot | .take _, slot => slot

end Act

namespace Registry

variable {α : Type}

/-- What an act done to a registry gives back. -/
def reply (r : Registry α) : Act α → Except Refusal (Act.Reply α)
  | .reserve => r.reserve.map fun p => .granted p.1
  | .insert id v => (r.insert id v).map fun _ => .done
  | .fill id v => (r.fill id v).map fun _ => .done
  | .take id => (r.take id).map fun p => .value p.1
  | .remove id => .ok (.slot (r.slot? id))

/-- In either order two acts give back the same and leave the same registry. -/
structure Commutes (r : Registry α) (a b : Act α) : Prop where
  left : (r.after b).reply a = r.reply a
  right : (r.after a).reply b = r.reply b
  after : (r.after a).after b = (r.after b).after a

variable {r s : Registry α} {a b : Act α} {id x y : SlotId}

/-! ### Acts on one id -/

theorem slot?_eq_ite {slot : Option (Slot α)} (h : r.slot? x = slot) :
    r.slot? y = if x = y then slot else r.slot? y := by
  split
  · rename_i hxy
    rw [← hxy, h]
  · rfl

/-- **An act on an id writes the slot of that id only.** -/
theorem slot?_after (h : a.id? = some x) :
    (r.after a).slot? y = if x = y then a.leaves (r.slot? x) else r.slot? y := by
  cases a with
  | reserve => cases h
  | insert id v =>
    cases h
    cases hs : r.slot? x with
    | none => rw [after, insert_of_absent hs]; exact slot?_withSlot
    | some slot => rw [after, insert_of_present (by rw [hs]; rfl)]; exact slot?_eq_ite hs
  | fill id v =>
    cases h
    cases hs : r.slot? x with
    | none => rw [after, fill_of_absent hs]; exact slot?_eq_ite hs
    | some slot =>
      cases slot with
      | reserved => rw [after, fill_of_reserved hs]; exact slot?_withSlot
      | occupied w => rw [after, fill_of_occupied hs]; exact slot?_eq_ite hs
  | take id =>
    cases h
    cases hs : r.slot? x with
    | none => rw [after, take_of_absent hs]; exact slot?_eq_ite hs
    | some slot =>
      cases slot with
      | reserved => rw [after, take_of_reserved hs]; exact slot?_eq_ite hs
      | occupied w => rw [after, take_of_occupied hs]; exact slot?_remove
  | remove id =>
    cases h
    exact slot?_remove

theorem slot?_after_of_ne (h : a.id? = some x) (hne : x ≠ y) : (r.after a).slot? y = r.slot? y := by
  rw [slot?_after h, if_neg hne]

theorem cursor_after_of_id? (h : a.id? = some x) : (r.after a).cursor = r.cursor := by
  rw [cursor_after]
  cases a with
  | reserve => cases h
  | insert | fill | take | remove => rfl

/-- **An act on an id reads the slot of that id only.** -/
theorem reply_congr (h : a.id? = some x) (hs : r.slot? x = s.slot? x) : r.reply a = s.reply a := by
  cases a with
  | reserve => cases h
  | insert id v =>
    cases h
    cases hr : s.slot? x with
    | none => rw [reply, reply, insert_of_absent hr, insert_of_absent (hs.trans hr)]; rfl
    | some slot => rw [reply, reply, insert_of_present (by rw [hs, hr]; rfl), insert_of_present (by rw [hr]; rfl)]
  | fill id v =>
    cases h
    rw [reply, reply, fill, fill, hs]
    cases s.slot? x with
    | none => rfl
    | some slot => cases slot <;> rfl
  | take id =>
    cases h
    rw [reply, reply, take, take, hs]
    cases s.slot? x with
    | none => rfl
    | some slot => cases slot <;> rfl
  | remove id =>
    cases h
    rw [reply, reply, hs]

theorem slot?_after_after (ha : a.id? = some x) (hb : b.id? = some y) (hne : x ≠ y) (z : SlotId) :
    ((r.after a).after b).slot? z =
      if y = z then b.leaves (r.slot? y) else if x = z then a.leaves (r.slot? x) else r.slot? z := by
  rw [slot?_after hb, slot?_after_of_ne ha hne, slot?_after ha]

theorem commutes_of_ne (ha : a.id? = some x) (hb : b.id? = some y) (hne : x ≠ y) : r.Commutes a b where
  left := reply_congr ha (slot?_after_of_ne hb hne.symm)
  right := reply_congr hb (slot?_after_of_ne ha hne)
  after := by
    refine ext (fun z => ?_) ?_
    · rw [slot?_after_after ha hb hne, slot?_after_after hb ha hne.symm]
      by_cases hx : x = z
      · rw [if_pos hx, if_pos hx, if_neg (hx ▸ hne.symm)]
      · rw [if_neg hx, if_neg hx]
    · rw [cursor_after_of_id? hb, cursor_after_of_id? ha, cursor_after_of_id? ha, cursor_after_of_id? hb]

/-! ### A reservation and an act on one id -/

/-- The id that a reservation claims is absent, and every id that is closer to the cursor is present. -/
theorem closest_of_reserve (h : r.reserve = .ok (id, s)) : r.slot? id = none ∧ r.cursor.distance id < SlotId.count ∧
    ∀ y, r.cursor.distance y < r.cursor.distance id → (r.slot? y).isSome := by
  cases r.comes_reserve with
  | claims id' k claimed freed after absent pos lt eq before =>
    obtain rfl : id = id' := by
      rw [claimed?, h] at claimed
      exact Option.some.inj claimed
    have hdistance : r.cursor.distance id = k := by rw [eq, SlotId.distance_ahead pos (Nat.le_of_lt lt)]
    rw [hdistance]
    refine ⟨absent, lt, fun y hy => ?_⟩
    rw [← SlotId.ahead_distance (x := r.cursor) (y := y)]
    exact before _ SlotId.distance_pos hy
  | refused after claimed | binds id v claimed | frees id claimed =>
    rw [claimed?, h] at claimed
    cases claimed

theorem reserve_of_closest (absent : r.slot? id = none) (lt : r.cursor.distance id < SlotId.count)
    (before : ∀ y, r.cursor.distance y < r.cursor.distance id → (r.slot? y).isSome) :
    r.reserve = .ok (id, { r.withSlot id .reserved with cursor := id }) := by
  have h := reserve_of_nearest (r := r) (k := r.cursor.distance id) SlotId.distance_pos lt
    (by rw [SlotId.ahead_distance]; exact absent)
    (fun j hpos hj => before _ (by rw [SlotId.distance_ahead hpos (by omega)]; exact hj))
  rwa [SlotId.ahead_distance] at h

/-- **A reservation reads which ids are present up to the one that it claims.** -/
theorem reserve_congr {r' : Registry α} (h : r.reserve = .ok (id, r')) (hcursor : s.cursor = r.cursor)
    (same : ∀ y, r.cursor.distance y ≤ r.cursor.distance id → (s.slot? y).isSome = (r.slot? y).isSome) :
    s.reserve = .ok (id, { s.withSlot id .reserved with cursor := id }) := by
  obtain ⟨absent, lt, before⟩ := closest_of_reserve h
  refine reserve_of_closest (Option.not_isSome_iff_eq_none.1 ?_) (by rw [hcursor]; exact lt) fun y hy => ?_
  · rw [same id (Nat.le_refl _), absent]
    exact nofun
  · rw [hcursor] at hy
    rw [same y (Nat.le_of_lt hy)]
    exact before y hy

/-- An act on an id changes which ids are present at that id only. -/
theorem isSome_slot?_after_eq (ha : a.id? = some x)
    (h : x = y → ((r.after a).slot? x).isSome = (r.slot? x).isSome) :
    ((r.after a).slot? y).isSome = (r.slot? y).isSome := by
  by_cases hxy : x = y
  · rw [← hxy]
    exact h hxy
  · rw [slot?_after_of_ne ha hxy]

theorem reserve_of_reply (h : r.reply .reserve = .ok (.granted id)) : ∃ s, r.reserve = .ok (id, s) := by
  rw [reply] at h
  cases hr : r.reserve with
  | error why => rw [hr] at h; cases h
  | ok p => rw [hr] at h; cases h; exact ⟨p.2, rfl⟩

theorem reserve_of_reply_error {why : Refusal} (h : r.reply .reserve = .error why) : r.reserve = .error why := by
  rw [reply] at h
  cases hr : r.reserve with
  | error why => rw [hr] at h; cases h; rfl
  | ok p => rw [hr] at h; cases h

/-- A present id that does not stay so becomes absent. -/
theorem slot?_after_eq_none (changed : ((r.after a).slot? x).isSome ≠ (r.slot? x).isSome) (hs : (r.slot? x).isSome) :
    (r.after a).slot? x = none := by
  rw [hs] at changed
  exact Option.not_isSome_iff_eq_none.1 changed

theorem commutes_of_granted (h : r.reserve = .ok (id, s)) (ha : a.id? = some x) (hne : x ≠ id)
    (apart : r.cursor.distance id < r.cursor.distance x ∨ ((r.after a).slot? x).isSome = (r.slot? x).isSome) :
    r.Commutes .reserve a := by
  obtain ⟨-, rfl⟩ := reserve_eq_ok h
  have hafter : r.after .reserve = { r.withSlot id .reserved with cursor := id } := by rw [after, h]
  have hslot : ∀ y, (r.after .reserve).slot? y = if id = y then some .reserved else r.slot? y := fun y => by
    rw [hafter]
    exact slot?_withSlot
  have hother : (r.after .reserve).slot? x = r.slot? x := by rw [hslot, if_neg hne.symm]
  have hreserve : (r.after a).reserve = .ok (id, { (r.after a).withSlot id .reserved with cursor := id }) := by
    refine reserve_congr h (cursor_after_of_id? ha) fun y hy => isSome_slot?_after_eq ha fun hxy => ?_
    exact apart.resolve_left (by rw [hxy]; omega)
  refine ⟨by rw [reply, reply, h, hreserve]; rfl, reply_congr ha hother, ext (fun y => ?_) ?_⟩
  · have hright : ((r.after a).after .reserve).slot? y = if id = y then some .reserved else (r.after a).slot? y := by
      rw [after, hreserve]
      exact slot?_withSlot
    rw [hright, slot?_after ha, hother, hslot, slot?_after ha]
    by_cases hx : x = y
    · rw [if_pos hx, if_pos hx, if_neg (hx ▸ hne.symm)]
    · rw [if_neg hx, if_neg hx]
  · rw [cursor_after_of_id? ha, hafter, after, hreserve]

/-- An id that a reservation passes over is claimed in its place once it is absent. -/
theorem apart_of_granted (h : r.reserve = .ok (id, s)) (ha : a.id? = some x) (hne : x ≠ id)
    (commutes : r.Commutes .reserve a) :
    r.cursor.distance id < r.cursor.distance x ∨ ((r.after a).slot? x).isSome = (r.slot? x).isSome := by
  by_contra hclose
  rw [not_or, Nat.not_lt] at hclose
  obtain ⟨hle, changed⟩ := hclose
  have hlt : r.cursor.distance x < r.cursor.distance id := by
    refine Nat.lt_of_le_of_ne hle fun heq => hne ?_
    rw [← SlotId.ahead_distance (x := r.cursor) (y := x), heq, SlotId.ahead_distance]
  obtain ⟨-, -, before⟩ := closest_of_reserve h
  have absent := slot?_after_eq_none changed (before x hlt)
  obtain ⟨s', hs'⟩ := reserve_of_reply (commutes.left.trans (by rw [reply, h]; rfl))
  obtain ⟨-, -, before'⟩ := closest_of_reserve hs'
  rw [cursor_after_of_id? ha] at before'
  have present := before' x hlt
  rw [absent] at present
  cases present

theorem commutes_of_refused {why : Refusal} (h : r.reserve = .error why) (ha : a.id? = some x)
    (apart : x = r.cursor ∨ ((r.after a).slot? x).isSome = (r.slot? x).isSome) : r.Commutes .reserve a := by
  obtain ⟨rfl, hfull⟩ := reserve_eq_error_iff.1 h
  have hreserve : (r.after a).reserve = .error .noneLeft := by
    refine reserve_eq_error_iff.2 ⟨rfl, fun y absent => ?_⟩
    rw [cursor_after_of_id? ha]
    by_cases hy : y = r.cursor
    · exact hy
    · refine hfull y (Option.not_isSome_iff_eq_none.1 ?_)
      rw [← isSome_slot?_after_eq ha fun hxy => apart.resolve_left (hxy ▸ hy), absent]
      exact nofun
  have hleft : r.after .reserve = r := by rw [after, h]
  have hright : (r.after a).after .reserve = r.after a := by rw [after, hreserve]
  exact ⟨by rw [reply, reply, h, hreserve], by rw [hleft], by rw [hleft, hright]⟩

/-- An id other than the cursor is claimed once it is absent. -/
theorem apart_of_refused {why : Refusal} (h : r.reserve = .error why) (ha : a.id? = some x)
    (commutes : r.Commutes .reserve a) : x = r.cursor ∨ ((r.after a).slot? x).isSome = (r.slot? x).isSome := by
  by_contra hclose
  rw [not_or] at hclose
  obtain ⟨hx, changed⟩ := hclose
  have absent := slot?_after_eq_none changed (reserve_eq_error h hx)
  have hrefused := reserve_of_reply_error (commutes.left.trans (by rw [reply, h]; rfl))
  have hcursor := (reserve_eq_error_iff.1 hrefused).2 x absent
  rw [cursor_after_of_id? ha] at hcursor
  exact hx hcursor

/-! ### The main result -/

/-- **Independent acts commute.**  Acts on different ids do.  A reservation that claims an id commutes with an act on
another id just when that id lies further ahead of the cursor, or the act leaves it present or absent as it was.  A
reservation that is refused commutes with an act on an id just when that is the cursor's own, or the act leaves it
present or absent as it was. -/
theorem independent_acts_commute (r : Registry α) :
    (∀ (a b : Act α) (x y : SlotId), a.id? = some x → b.id? = some y → x ≠ y → r.Commutes a b) ∧
    (∀ (id x : SlotId) (a : Act α), r.reply .reserve = .ok (.granted id) → a.id? = some x → x ≠ id →
      (r.Commutes .reserve a ↔
        r.cursor.distance id < r.cursor.distance x ∨ ((r.after a).slot? x).isSome = (r.slot? x).isSome)) ∧
    (∀ (why : Refusal) (x : SlotId) (a : Act α), r.reply .reserve = .error why → a.id? = some x →
      (r.Commutes .reserve a ↔ x = r.cursor ∨ ((r.after a).slot? x).isSome = (r.slot? x).isSome)) := by
  refine ⟨fun a b x y => commutes_of_ne, fun id x a h ha hne => ?_, fun why x a h ha => ?_⟩
  · obtain ⟨s, hr⟩ := reserve_of_reply h
    exact ⟨apart_of_granted hr ha hne, commutes_of_granted hr ha hne⟩
  · have hr := reserve_of_reply_error h
    exact ⟨apart_of_refused hr ha, commutes_of_refused hr ha⟩

end Registry

end SlotRegistry
