import SlotRegistry.Proofs.Reference.Table
import SlotRegistry.Proofs.Registry.Probe
import SlotRegistry.Registry.Row
/-!
# Draining — reserving until nothing is left

When a registry is reserved from again and again until it refuses, it hands out its absent ids in the order of their
distance from where the cursor stood.  The cursor's own id is no candidate of the first reservation but becomes one of
the later ones: it comes last, after a full turn (`draining_hands_out_the_absent`).
-/
namespace SlotRegistry

namespace SlotId

variable {x y : SlotId} {k : Nat}

/-- How many places ahead an id lies, from 1 for the next one up to a full turn for the id itself. -/
def distance (x y : SlotId) : Nat := (y.toNat + (count - 1) - x.toNat) % count + 1

theorem distance_pos : 0 < distance x y := Nat.succ_pos _

theorem distance_le : distance x y ≤ count := Nat.mod_lt _ (by decide)

theorem ahead_distance : x.ahead (distance x y) = y := by
  have hx : x.toNat < count := x.toNat_lt
  have hy : y.toNat < count := y.toNat_lt
  apply UInt16.toNat_inj.1
  rw [toNat_ahead, distance]
  simp only [count] at hx hy ⊢
  omega

theorem distance_ahead (hpos : 0 < k) (hle : k ≤ count) : distance x (x.ahead k) = k := by
  have hx : x.toNat < count := x.toNat_lt
  rw [distance, toNat_ahead]
  simp only [count] at hx hle ⊢
  omega

end SlotId

namespace Registry

variable {α : Type} {r s : Registry α} {id x : SlotId} {ids : List SlotId}

theorem slot?_of_reserve (h : r.reserve = .ok (id, s)) : s.slot? x = if id = x then some .reserved else r.slot? x := by
  obtain ⟨-, rfl⟩ := reserve_eq_ok h
  exact slot?_withSlot

theorem cursor_of_reserve (h : r.reserve = .ok (id, s)) : s.cursor = id := by
  obtain ⟨-, rfl⟩ := reserve_eq_ok h
  rfl

/-- A registry is reserved from until it refuses: the ids it hands out, and the registry that is left. -/
inductive Drains : Registry α → List SlotId → Registry α → Prop
  | stop {r : Registry α} {why : Refusal} (refused : r.reserve = .error why) : Drains r [] r
  | next {r s t : Registry α} {id : SlotId} {ids : List SlotId} (granted : r.reserve = .ok (id, s))
      (rest : Drains s ids t) : Drains r (id :: ids) t

theorem Drains.unique {ids' : List SlotId} {s' : Registry α} (h : r.Drains ids s) (h' : r.Drains ids' s') :
    ids = ids' ∧ s = s' := by
  induction h generalizing ids' s' with
  | stop refused =>
    cases h' with
    | stop => exact ⟨rfl, rfl⟩
    | next granted rest =>
      rw [granted] at refused
      cases refused
  | next granted rest ih =>
    cases h' with
    | stop refused =>
      rw [granted] at refused
      cases refused
    | next granted' rest' =>
      rw [granted] at granted'
      cases granted'
      obtain ⟨rfl, rfl⟩ := ih rest'
      exact ⟨rfl, rfl⟩

theorem reserve_error {why : Refusal} (h : r.reserve = .error why) : why = .noneLeft := by
  unfold reserve at h
  split at h <;> cases h
  rfl

/-- Reserving in a row comes to the same, when the row is long enough. -/
theorem Drains.reserveRow (h : r.Drains ids s) : ∀ {n : Nat}, ids.length < n → ∀ runs,
    r.reserveRow n runs = (ids.foldl Runs.push runs, some .noneLeft, s) := by
  induction h with
  | stop refused =>
    intro n hn runs
    obtain ⟨n, rfl⟩ : ∃ k, n = k + 1 := ⟨n - 1, by omega⟩
    rw [Registry.reserveRow, refused, reserve_error refused]
    rfl
  | next granted rest ih =>
    intro n hn runs
    rw [List.length_cons] at hn
    obtain ⟨n, rfl⟩ : ∃ k, n = k + 1 := ⟨n - 1, by omega⟩
    rw [Registry.reserveRow, granted, List.foldl_cons]
    exact ih (by omega) _

/-- What has been handed out is reserved, and the rest is as it was. -/
theorem Drains.slot? (h : r.Drains ids s) (x : SlotId) : s.slot? x = if x ∈ ids then some .reserved else r.slot? x := by
  induction h with
  | stop => rfl
  | @next r s t id ids granted rest ih =>
    rw [ih, slot?_of_reserve granted]
    by_cases hx : id = x
    · simp [hx]
    · simp [hx, Ne.symm hx]

/-- The cursor stands at the id handed out last. -/
theorem Drains.cursor (h : r.Drains ids s) : s.cursor = ids.getLast?.getD r.cursor := by
  induction h with
  | stop => rfl
  | next granted rest ih =>
    rw [ih, cursor_of_reserve granted, List.getLast?_cons]
    rfl

/-! ### The order -/

/-- The `m` ids that lie further ahead of `c` than `e` places. -/
def turnAfter (c : SlotId) (e m : Nat) : List SlotId := (List.range' (e + 1) m).map c.ahead

theorem turnAfter_succ {c : SlotId} {e m : Nat} : turnAfter c e (m + 1) = c.ahead (e + 1) :: turnAfter c (e + 1) m := by
  rw [turnAfter, List.range'_succ, List.map_cons]
  rfl

theorem mem_turnAfter {c : SlotId} {e m : Nat} : x ∈ turnAfter c e m ↔ ∃ k, e < k ∧ k ≤ e + m ∧ c.ahead k = x := by
  rw [turnAfter, List.mem_map]
  refine exists_congr fun k => ?_
  rw [List.mem_range'_1, ← and_assoc]
  exact and_congr_left fun _ => by omega

theorem pairwise_turnAfter {c : SlotId} : ∀ (m : Nat) {e : Nat}, e + m ≤ SlotId.count →
    (turnAfter c e m).Pairwise fun x y => c.distance x < c.distance y
  | 0, _, _ => List.Pairwise.nil
  | m + 1, e, hle => by
    rw [turnAfter_succ, List.pairwise_cons]
    refine ⟨fun x hx => ?_, pairwise_turnAfter m (by omega)⟩
    obtain ⟨k, hek, hk, rfl⟩ := mem_turnAfter.1 hx
    rw [SlotId.distance_ahead (by omega) (by omega), SlotId.distance_ahead (by omega) (by omega)]
    exact hek

/-- With the cursor `d` places ahead of `c`, and the ids further on present up to `e` places, the next one is handed
out. -/
theorem reserve_of_ahead {c : SlotId} {d e : Nat} (hcursor : r.cursor = c.ahead d) (hle : d ≤ e)
    (hlt : e + 1 - d < SlotId.count) (present : ∀ j, d < j → j ≤ e → (r.slot? (c.ahead j)).isSome)
    (absent : r.slot? (c.ahead (e + 1)) = none) : ∃ s, r.reserve = .ok (c.ahead (e + 1), s) := by
  have hnext : r.cursor.ahead (e + 1 - d) = c.ahead (e + 1) := by
    rw [hcursor, SlotId.ahead_ahead, Nat.add_sub_cancel' (by omega)]
  refine ⟨_, hnext ▸ reserve_of_nearest (by omega) hlt (hnext ▸ absent) fun j hpos hj => ?_⟩
  rw [hcursor, SlotId.ahead_ahead]
  exact present _ (by omega) (by omega)

/-- **The absent ids are handed out by distance.**  The first `e` ids after `c` are present, and the cursor stands at
one of them, or still at `c`, and then an absent id is left which is not `c`. -/
theorem drains_turnAfter {c : SlotId} : ∀ (m : Nat) {e d : Nat} {r : Registry α}, e + m = SlotId.count → d ≤ e →
    r.cursor = c.ahead d → (∀ j, 0 < j → j ≤ e → (r.slot? (c.ahead j)).isSome) →
    (d = 0 → ∃ k, e < k ∧ k < SlotId.count ∧ r.slot? (c.ahead k) = none) →
    ∃ s, r.Drains ((turnAfter c e m).filter fun x => (r.slot? x).isNone) s
  | 0, e, d, r, hturn, hle, hcursor, present, other => by
    refine ⟨r, .stop (reserve_of_full fun x _ => ?_)⟩
    rw [← SlotId.ahead_distance (x := c) (y := x)]
    exact present _ SlotId.distance_pos (Nat.le_trans SlotId.distance_le (Nat.le_of_eq hturn.symm))
  | m + 1, e, d, r, hturn, hle, hcursor, present, other => by
    rw [turnAfter_succ]
    cases hs : r.slot? (c.ahead (e + 1)) with
    | some slot =>
      rw [List.filter_cons_of_neg (by rw [hs]; exact nofun)]
      refine drains_turnAfter m (by omega) (by omega) hcursor (fun j hpos hj => ?_) fun hd => ?_
      · rcases Nat.lt_or_eq_of_le hj with hj | rfl
        · exact present j hpos (by omega)
        · rw [hs]
          rfl
      · obtain ⟨k, hek, hk, absent⟩ := other hd
        refine ⟨k, Nat.lt_of_le_of_ne hek fun heq => ?_, hk, absent⟩
        rw [← heq, hs] at absent
        cases absent
    | none =>
      -- the next id is within a turn of the cursor: the cursor has left `c`, or an absent id lies no further
      have hlt : e + 1 - d < SlotId.count := by
        by_cases hd : d = 0
        · obtain ⟨k, hek, hk, -⟩ := other hd
          omega
        · omega
      obtain ⟨s, hgranted⟩ := reserve_of_ahead hcursor hle hlt (fun j hdj hj => present j (by omega) hj) hs
      obtain ⟨t, hrest⟩ := drains_turnAfter m (by omega) (Nat.le_refl _) (cursor_of_reserve hgranted)
        (fun j hpos hj => by
          rw [slot?_of_reserve hgranted]
          split
          · rfl
          · rename_i hne
            exact present j hpos (Nat.le_of_lt_succ (Nat.lt_of_le_of_ne hj fun heq => hne (heq ▸ rfl))))
        nofun
      refine ⟨t, ?_⟩
      rw [List.filter_cons_of_pos (by rw [hs]; rfl)]
      refine .next hgranted ?_
      rw [List.filter_congr fun x hx => ?_]
      · exact hrest
      · obtain ⟨k, hek, hk, rfl⟩ := mem_turnAfter.1 hx
        rw [slot?_of_reserve hgranted, if_neg]
        intro heq
        have hdist := congrArg c.distance heq
        rw [SlotId.distance_ahead (by omega) (by omega), SlotId.distance_ahead (by omega) (by omega)] at hdist
        omega

/-! ### The absent ids -/

/-- The absent ids by distance from the cursor, its own last. -/
def absentIds (r : Registry α) : List SlotId :=
  (turnAfter r.cursor 0 SlotId.count).filter fun x => (r.slot? x).isNone

theorem mem_absentIds : x ∈ r.absentIds ↔ r.slot? x = none := by
  rw [absentIds, List.mem_filter, Option.isNone_iff_eq_none, and_iff_right]
  exact mem_turnAfter.2 ⟨_, SlotId.distance_pos, by rw [Nat.zero_add]; exact SlotId.distance_le, SlotId.ahead_distance⟩

theorem pairwise_absentIds (r : Registry α) :
    r.absentIds.Pairwise fun x y => r.cursor.distance x < r.cursor.distance y :=
  (pairwise_turnAfter SlotId.count (Nat.le_of_eq (Nat.zero_add _))).filter _

theorem nodup_absentIds (r : Registry α) : r.absentIds.Nodup :=
  r.pairwise_absentIds.imp fun hlt heq => absurd hlt (by rw [heq]; exact Nat.lt_irrefl _)

/-- The absent ids and the present ones are all there are. -/
theorem length_absentIds_add_size (r : Registry α) : r.absentIds.length + r.size = SlotId.count := by
  have hdisjoint : r.absentIds.Disjoint r.ids := fun x hx hpresent => by
    rw [mem_ids, mem_absentIds.1 hx] at hpresent
    cases hpresent
  have hall : (r.absentIds ++ r.ids).Perm SlotId.all := by
    refine (List.perm_ext_iff_of_nodup (r.nodup_absentIds.append Std.ExtTreeMap.nodup_keys hdisjoint)
      SlotId.nodup_all).2 fun x => iff_of_true ?_ (SlotId.mem_all x)
    rw [List.mem_append, mem_absentIds]
    cases hx : r.slot? x with
    | none => exact .inl rfl
    | some slot => exact .inr (mem_ids.2 (by rw [hx]; rfl))
  have hlength := hall.length_eq
  rw [List.length_append, ids, Std.ExtTreeMap.length_keys, SlotId.all, List.length_map, List.length_range] at hlength
  exact hlength

/-- When an id other than the cursor is absent, all absent ids are handed out. -/
theorem drains_absentIds (h : ∃ x, x ≠ r.cursor ∧ r.slot? x = none) : ∃ s, r.Drains r.absentIds s := by
  obtain ⟨k, hpos, hlt, absent, -⟩ := exists_nearest h
  exact drains_turnAfter SlotId.count (Nat.zero_add _) (Nat.le_refl 0) SlotId.ahead_zero.symm
    (fun j hpos hj => absurd hpos (by omega)) fun _ => ⟨k, hpos, hlt, absent⟩

/-- A reservation is refused when no id but the cursor is absent. -/
theorem reserve_eq_error_iff {why : Refusal} :
    r.reserve = .error why ↔ why = .noneLeft ∧ ∀ x, r.slot? x = none → x = r.cursor := by
  constructor
  · refine fun h => ⟨reserve_error h, fun x absent => Classical.not_not.1 fun hx => ?_⟩
    have hpresent := reserve_eq_error h hx
    rw [absent] at hpresent
    cases hpresent
  · rintro ⟨rfl, hcursor⟩
    exact reserve_of_full fun x hx => Option.isSome_iff_ne_none.2 fun absent => hx (hcursor x absent)

/-- No id but the cursor is absent when all are present, or all but one and the cursor is the one. -/
theorem absent_eq_cursor_iff (r : Registry α) :
    (∀ x, r.slot? x = none → x = r.cursor) ↔
      r.size = SlotId.count ∨ r.size = SlotId.count - 1 ∧ r.slot? r.cursor = none := by
  have hlength := r.length_absentIds_add_size
  have hmem : ∀ x, x ∈ r.absentIds ↔ r.slot? x = none := fun x => mem_absentIds
  have hnodup := r.nodup_absentIds
  generalize r.absentIds = ids at hlength hmem hnodup
  simp only [← hmem]
  match ids with
  | [] =>
    rw [List.length_nil, Nat.zero_add] at hlength
    exact iff_of_true nofun (.inl hlength)
  | [x] =>
    rw [List.length_singleton] at hlength
    simp only [List.mem_singleton, forall_eq]
    constructor
    · exact fun hx => .inr ⟨by omega, hx.symm⟩
    · rintro (hfull | ⟨-, hx⟩)
      · omega
      · exact hx.symm
  | x :: y :: ids =>
    rw [List.length_cons, List.length_cons] at hlength
    refine iff_of_false (fun h => ?_) (by omega)
    have hxy : x = y := (h x (by simp)).trans (h y (by simp)).symm
    rw [List.nodup_cons] at hnodup
    exact hnodup.1 (hxy ▸ List.mem_cons_self)

/-! ### The main result -/

/-- **Draining hands out the absent ids.**  Reserving again and again comes to a refusal.  By then all absent ids have
been handed out, each once, by distance, and every id is present; but when none is absent, or only the cursor's own id,
already the first reservation is refused. -/
theorem draining_hands_out_the_absent (r : Registry α) :
    (∃ ids s, r.Drains ids s) ∧
    (∀ ids s, r.Drains ids s →
      ((∀ x, r.slot? x = none → x = r.cursor) → r.reserve = .error .noneLeft ∧ ids = [] ∧ s = r) ∧
      ((∃ x, x ≠ r.cursor ∧ r.slot? x = none) →
        (∀ x, x ∈ ids ↔ r.slot? x = none) ∧ ids.Nodup ∧
        ids.Pairwise (fun x y => r.cursor.distance x < r.cursor.distance y) ∧
        (∀ x, (s.slot? x).isSome) ∧ (∀ x slot, r.slot? x = some slot → s.slot? x = some slot) ∧
        ids.getLast? = some s.cursor ∧ ids.length + r.size = SlotId.count) ∧
      ∀ n, ids.length < n → r.reserveRow n .empty = (Runs.ofList ids, some .noneLeft, s)) ∧
    ((∃ why, r.reserve = .error why) ↔
      r.size = SlotId.count ∨ r.size = SlotId.count - 1 ∧ r.slot? r.cursor = none) := by
  have hstop : (∀ x, r.slot? x = none → x = r.cursor) → r.Drains [] r := fun h =>
    .stop (reserve_eq_error_iff.2 ⟨rfl, h⟩)
  refine ⟨?_, fun ids s hdrains => ⟨fun h => ?_, fun h => ?_, fun n hn => hdrains.reserveRow hn _⟩, ?_⟩
  · by_cases h : ∃ x, x ≠ r.cursor ∧ r.slot? x = none
    · exact ⟨_, drains_absentIds h⟩
    · exact ⟨[], r, hstop fun x absent => Classical.not_not.1 fun hx => h ⟨x, hx, absent⟩⟩
  · obtain ⟨rfl, rfl⟩ := hdrains.unique (hstop h)
    exact ⟨reserve_eq_error_iff.2 ⟨rfl, h⟩, rfl, rfl⟩
  · obtain ⟨s', hdrains'⟩ := drains_absentIds h
    obtain ⟨rfl, rfl⟩ := hdrains.unique hdrains'
    obtain ⟨x, -, absent⟩ := h
    refine ⟨fun x => mem_absentIds, r.nodup_absentIds, r.pairwise_absentIds, fun x => ?_, fun x slot hslot => ?_, ?_,
      r.length_absentIds_add_size⟩
    · rw [hdrains.slot?]
      split
      · rfl
      · rename_i hx
        exact Option.isSome_iff_ne_none.2 fun absent => hx (mem_absentIds.2 absent)
    · rw [hdrains.slot?, if_neg, hslot]
      rw [mem_absentIds, hslot]
      exact nofun
    · rw [hdrains.cursor, List.getLast?_eq_some_getLast (List.ne_nil_of_mem (mem_absentIds.2 absent))]
      rfl
  · rw [← absent_eq_cursor_iff]
    exact ⟨fun ⟨why, h⟩ => (reserve_eq_error_iff.1 h).2, fun h => ⟨_, reserve_eq_error_iff.2 ⟨rfl, h⟩⟩⟩

end Registry

end SlotRegistry
