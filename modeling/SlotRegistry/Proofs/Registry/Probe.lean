import SlotRegistry.Proofs.Registry.History
/-!
# Probe — the search of a reservation, round by round

A reservation probes one id after the other, from the one after the cursor on, and round the ring.  The search is over
when it has come to an absent id, which it claims, or when it is back at the cursor.  It is over after one turn at most,
and what it comes to is the reservation (`reserve_claims_the_nearest`).
-/
namespace SlotRegistry
namespace Registry

variable {α : Type}

/-- What a search that has come to `id` comes to within `n` rounds, and the registry it leaves; none while it goes on.
The search began after the id `start`. -/
def probe (r : Registry α) (start id : SlotId) : Nat → Option (Except Refusal SlotId × Registry α)
  | 0 => none
  | n + 1 =>
    if id = start then some (.error .noneLeft, r)
    else if r.contains id then r.probe start (id + 1) n
    else some (.ok id, { r.withSlot id .reserved with cursor := id })

variable {r : Registry α} {start id x : SlotId} {j k n : Nat}

theorem probe_of_start : r.probe start start (n + 1) = some (.error .noneLeft, r) := if_pos rfl

theorem probe_of_present (hne : id ≠ start) (h : (r.slot? id).isSome) :
    r.probe start id (n + 1) = r.probe start (id + 1) n := by
  rw [probe, if_neg hne, contains_eq, if_pos h]

theorem probe_of_absent (hne : id ≠ start) (h : r.slot? id = none) :
    r.probe start id (n + 1) = some (.ok id, { r.withSlot id .reserved with cursor := id }) := by
  rw [probe, if_neg hne, contains_eq, h]
  rfl

theorem ahead_ne (hpos : 0 < j) (hlt : j < SlotId.count) : start.ahead j ≠ start :=
  fun h => absurd (SlotId.count_le_of_ahead_eq hpos h) (by omega)

/-- Over present ids the search goes on. -/
theorem probe_passes (n : Nat) : ∀ k, k < SlotId.count → (∀ j, 0 < j → j ≤ k → (r.slot? (start.ahead j)).isSome) →
    r.probe start (start + 1) (k + n) = r.probe start (start.ahead (k + 1)) n
  | 0, _, _ => by rw [Nat.zero_add, Nat.zero_add, SlotId.ahead_one]
  | k + 1, hlt, present => by
    have ih := probe_passes (n + 1) k (by omega) fun j hpos hle => present j hpos (by omega)
    rw [show k + 1 + n = k + (n + 1) by omega, ih,
      probe_of_present (ahead_ne (Nat.succ_pos k) hlt) (present (k + 1) (Nat.succ_pos k) (Nat.le_refl _)),
      ← SlotId.ahead_one, SlotId.ahead_ahead]

/-- The search ends at the nearest absent id. -/
theorem probe_of_nearest (pos : 0 < k) (lt : k < SlotId.count) (absent : r.slot? (start.ahead k) = none)
    (before : ∀ j, 0 < j → j < k → (r.slot? (start.ahead j)).isSome) :
    r.probe start (start + 1) k =
      some (.ok (start.ahead k), { r.withSlot (start.ahead k) .reserved with cursor := start.ahead k }) := by
  obtain ⟨k, rfl⟩ : ∃ i, k = i + 1 := ⟨k - 1, by omega⟩
  rw [probe_passes 1 k (by omega) (fun j hpos hle => before j hpos (by omega)),
    probe_of_absent (ahead_ne pos lt) absent]

/-- With no absent id on the way the search comes back to where it began. -/
theorem probe_of_none (present : ∀ x, x ≠ start → (r.slot? x).isSome) :
    r.probe start (start + 1) SlotId.count = some (.error .noneLeft, r) := by
  have hback : start.ahead SlotId.count = start := by
    apply UInt16.toNat_inj.1
    rw [SlotId.toNat_ahead, Nat.add_mod_right]
    exact Nat.mod_eq_of_lt start.toNat_lt
  have hpasses : r.probe start (start + 1) SlotId.count = r.probe start (start.ahead SlotId.count) 1 :=
    probe_passes 1 (SlotId.count - 1) (by decide)
      fun j hpos hle => present _ (ahead_ne hpos (by simp only [SlotId.count] at hle ⊢; omega))
  rw [hpasses, hback, probe_of_start]

/-! ### The reservation -/

/-- A reservation is granted when some id other than the cursor is absent, and then it claims the nearest one. -/
theorem exists_nearest (h : ∃ x, x ≠ r.cursor ∧ r.slot? x = none) :
    ∃ k, 0 < k ∧ k < SlotId.count ∧ r.slot? (r.cursor.ahead k) = none ∧
      ∀ j, 0 < j → j < k → (r.slot? (r.cursor.ahead j)).isSome := by
  obtain ⟨x, hne, habsent⟩ := h
  cases hr : r.reserve with
  | error why =>
    have hsome := reserve_eq_error hr hne
    rw [habsent] at hsome
    cases hsome
  | ok p =>
    cases r.comes_reserve with
    | claims id k claimed freed after absent pos lt eq before => exact ⟨k, pos, lt, eq ▸ absent, before⟩
    | refused after claimed | binds id v claimed | frees id claimed =>
      rw [claimed?, hr] at claimed
      cases claimed

theorem reserve_of_full (h : ∀ x, x ≠ r.cursor → (r.slot? x).isSome) : r.reserve = .error .noneLeft := by
  refine reserve_of_none (firstAbsentAfter_eq_none_iff.2 fun k hpos hle => h _ (ahead_ne hpos ?_))
  simp only [SlotId.count] at hle ⊢
  omega

/-- **A reservation claims the nearest absent id.** -/
theorem reserve_claims_the_nearest (r : Registry α) :
    (∃ n ≤ SlotId.count, r.probe r.cursor (r.cursor + 1) n = some (r.reserve.map Prod.fst, r.after .reserve)) ∧
    ((∃ id, r.reserve.map Prod.fst = .ok id) ↔ ∃ x, x ≠ r.cursor ∧ r.slot? x = none) ∧
    (∀ id, r.reserve.map Prod.fst = .ok id →
      (∃ k, 0 < k ∧ k < SlotId.count ∧ id.toNat = (r.cursor.toNat + k) % SlotId.count ∧ r.slot? id = none ∧
        ∀ j y, 0 < j → j < k → y.toNat = (r.cursor.toNat + j) % SlotId.count → (r.slot? y).isSome) ∧
      (r.after .reserve).slot? id = some .reserved ∧ (∀ x, x ≠ id → (r.after .reserve).slot? x = r.slot? x) ∧
      (r.after .reserve).cursor = id) ∧
    ((∀ x, x ≠ r.cursor → (r.slot? x).isSome) → r.reserve = .error .noneLeft ∧ r.after .reserve = r) := by
  by_cases h : ∃ x, x ≠ r.cursor ∧ r.slot? x = none
  · obtain ⟨k, pos, lt, absent, before⟩ := exists_nearest h
    have hr := reserve_of_nearest pos lt absent before
    have hafter : r.after .reserve = { r.withSlot (r.cursor.ahead k) .reserved with cursor := r.cursor.ahead k } := by
      rw [after, hr]
    rw [hafter, hr]
    refine ⟨⟨k, Nat.le_of_lt lt, probe_of_nearest pos lt absent before⟩, iff_of_true ⟨_, rfl⟩ h, ?_, fun hfull => ?_⟩
    · intro id hid
      cases hid
      refine ⟨⟨k, pos, lt, SlotId.toNat_ahead, absent, fun j y hj hjk hy => ?_⟩, slot?_withSlot.trans (if_pos rfl),
        fun x hx => slot?_withSlot.trans (if_neg (Ne.symm hx)), rfl⟩
      rw [UInt16.toNat_inj.1 (hy.trans SlotId.toNat_ahead.symm)]
      exact before j hj hjk
    · obtain ⟨x, hne, habsent⟩ := h
      have hsome := hfull x hne
      rw [habsent] at hsome
      cases hsome
  · have hfull : ∀ x, x ≠ r.cursor → (r.slot? x).isSome := fun x hx =>
      Option.isSome_iff_ne_none.2 fun hnone => h ⟨x, hx, hnone⟩
    have hr := reserve_of_full hfull
    have hafter : r.after .reserve = r := by rw [after, hr]
    rw [hafter, hr]
    refine ⟨⟨SlotId.count, Nat.le_refl _, probe_of_none hfull⟩, iff_of_false ?_ h, ?_, fun _ => ⟨rfl, rfl⟩⟩
    · rintro ⟨id, hid⟩
      cases hid
    · intro id hid
      cases hid

end Registry

end SlotRegistry
