import SlotRegistry.Proofs.Registry.Ring
/-!
# History — a registry through many acts

An act is a request made to a registry that nobody shares.  A history keeps every act with the registry it was done to.
What an act does to the slot of an id and to the cursor is told once for each act; whether it hands out an id or frees
one is read off the registry it is done to.
-/
namespace SlotRegistry

/-- A request made to a registry. -/
inductive Act (α : Type)
  | reserve
  | insert (id : SlotId) (v : α)
  | fill (id : SlotId) (v : α)
  | take (id : SlotId)
  | remove (id : SlotId)

namespace Registry

variable {α : Type}

/-- The registry after an act.  One that is refused leaves it as it was. -/
def after (r : Registry α) : Act α → Registry α
  | .reserve => match r.reserve with
    | .ok p => p.2
    | .error _ => r
  | .insert id v => match r.insert id v with
    | .ok r' => r'
    | .error _ => r
  | .fill id v => match r.fill id v with
    | .ok r' => r'
    | .error _ => r
  | .take id => match r.take id with
    | .ok p => p.2
    | .error _ => r
  | .remove id => r.remove id

/-- The registry after many acts. -/
def afterAll (r : Registry α) (acts : List (Act α)) : Registry α := acts.foldl after r

/-- The id an act hands out, none unless it is a reservation that is granted. -/
def claimed? (r : Registry α) : Act α → Option SlotId
  | .reserve => match r.reserve with
    | .ok p => some p.1
    | .error _ => none
  | _ => none

/-- The id an act frees: one whose value it took out, or one that it removed and that was present. -/
def freed? (r : Registry α) : Act α → Option SlotId
  | .take id => match r.take id with
    | .ok _ => some id
    | .error _ => none
  | .remove id => if r.contains id then some id else none
  | _ => none

end Registry

/-- An act, with the registry it is done to. -/
structure Moment (α : Type) where
  registry : Registry α
  act : Act α

namespace Moment

variable {α : Type}

/-- The id that is handed out at a moment. -/
def claimed? (m : Moment α) : Option SlotId := m.registry.claimed? m.act

/-- The id that is freed at a moment. -/
def freed? (m : Moment α) : Option SlotId := m.registry.freed? m.act

end Moment

namespace Registry

variable {α : Type}

/-- The moments of a registry to which some acts are done one after the other. -/
def history (r : Registry α) : List (Act α) → List (Moment α)
  | [] => []
  | a :: acts => ⟨r, a⟩ :: (r.after a).history acts

variable {r : Registry α} {id x : SlotId} {a : Act α} {v : α}

/-- **What a history splits into.**  The moments of its first part come of some of the acts, and the others of the acts
that are left, done to the registry after them. -/
theorem history_eq_append : ∀ {acts : List (Act α)} {r : Registry α} {ms ms' : List (Moment α)},
    r.history acts = ms ++ ms' →
      ∃ acts₁ acts₂, acts = acts₁ ++ acts₂ ∧ r.history acts₁ = ms ∧ (r.afterAll acts₁).history acts₂ = ms'
  | acts, r, [], ms', h => ⟨[], acts, rfl, rfl, h⟩
  | [], r, m :: ms, ms', h => by cases h
  | a :: acts, r, m :: ms, ms', h => by
    rw [history, List.cons_append, List.cons.injEq] at h
    obtain ⟨hm, h⟩ := h
    obtain ⟨acts₁, acts₂, rfl, h₁, h₂⟩ := history_eq_append h
    exact ⟨a :: acts₁, acts₂, rfl, by rw [history, h₁, hm], h₂⟩

theorem history_eq_cons {acts : List (Act α)} {m : Moment α} {ms : List (Moment α)} (h : r.history acts = m :: ms) :
    m.registry = r ∧ ∃ acts', (r.after m.act).history acts' = ms := by
  cases acts with
  | nil => cases h
  | cons a acts =>
    rw [history, List.cons.injEq] at h
    obtain ⟨rfl, h⟩ := h
    exact ⟨rfl, acts, h⟩

/-! ### One act -/

/-- What an act comes to: it is refused, or it hands out an absent id, binds a value, or frees an id. -/
inductive Comes (r : Registry α) (a : Act α) : Prop
  | refused (after : r.after a = r) (claimed : r.claimed? a = none) (freed : r.freed? a = none)
  /-- Every id closer to the cursor than the one handed out is present. -/
  | claims (id : SlotId) (k : Nat) (claimed : r.claimed? a = some id) (freed : r.freed? a = none)
      (after : r.after a = { r.withSlot id .reserved with cursor := id }) (absent : r.slot? id = none)
      (pos : 0 < k) (lt : k < SlotId.count) (eq : id = r.cursor.ahead k)
      (before : ∀ j, 0 < j → j < k → (r.slot? (r.cursor.ahead j)).isSome)
  | binds (id : SlotId) (v : α) (claimed : r.claimed? a = none) (freed : r.freed? a = none)
      (after : r.after a = r.withSlot id (.occupied v)) (vacant : ∀ w, r.slot? id ≠ some (.occupied w))
  | frees (id : SlotId) (claimed : r.claimed? a = none) (freed : r.freed? a = some id)
      (after : r.after a = r.remove id) (present : (r.slot? id).isSome)

/-- The nearest absent id is handed out. -/
theorem reserve_of_nearest {k : Nat} (pos : 0 < k) (lt : k < SlotId.count) (absent : r.slot? (r.cursor.ahead k) = none)
    (before : ∀ j, 0 < j → j < k → (r.slot? (r.cursor.ahead j)).isSome) :
    r.reserve = .ok (r.cursor.ahead k, { r.withSlot (r.cursor.ahead k) .reserved with cursor := r.cursor.ahead k }) :=
  reserve_of_some (firstAbsentAfter_eq_some_iff.2 ⟨k, pos, Nat.le_sub_one_of_lt lt, rfl, absent, before⟩)

theorem comes_reserve (r : Registry α) : r.Comes .reserve := by
  cases hf : r.firstAbsentAfter r.cursor (SlotId.count - 1) with
  | none =>
    have hr := reserve_of_none hf
    exact .refused (by rw [after, hr]) (by rw [claimed?, hr]) rfl
  | some found =>
    have hr := reserve_of_some hf
    obtain ⟨k, hpos, hle, hk, habsent, hbefore⟩ := firstAbsentAfter_eq_some_iff.1 hf
    refine .claims found k (by rw [claimed?, hr]) rfl (by rw [after, hr]) habsent hpos ?_ hk hbefore
    simp only [SlotId.count] at hle ⊢
    omega

theorem comes_insert (r : Registry α) (id : SlotId) (v : α) : r.Comes (.insert id v) := by
  cases hs : r.slot? id with
  | none =>
    refine .binds id v rfl rfl ?_ (fun w h => by rw [hs] at h; cases h)
    rw [after, insert_of_absent hs]
  | some slot =>
    refine .refused ?_ rfl rfl
    rw [after, insert_of_present (by rw [hs]; rfl)]

theorem comes_fill (r : Registry α) (id : SlotId) (v : α) : r.Comes (.fill id v) := by
  cases hs : r.slot? id with
  | none => exact .refused (by rw [after, fill_of_absent hs]) rfl rfl
  | some slot =>
    cases slot with
    | reserved =>
      refine .binds id v rfl rfl ?_ (fun w h => by rw [hs] at h; cases h)
      rw [after, fill_of_reserved hs]
    | occupied w => exact .refused (by rw [after, fill_of_occupied hs]) rfl rfl

theorem comes_take (r : Registry α) (id : SlotId) : r.Comes (.take id) := by
  cases hs : r.slot? id with
  | none => exact .refused (by rw [after, take_of_absent hs]) rfl (by rw [freed?, take_of_absent hs])
  | some slot =>
    cases slot with
    | reserved => exact .refused (by rw [after, take_of_reserved hs]) rfl (by rw [freed?, take_of_reserved hs])
    | occupied w =>
      exact .frees id rfl (by rw [freed?, take_of_occupied hs]) (by rw [after, take_of_occupied hs]) (by rw [hs]; rfl)

theorem comes_remove (r : Registry α) (id : SlotId) : r.Comes (.remove id) := by
  by_cases hs : (r.slot? id).isSome
  · exact .frees id rfl (by rw [freed?, contains_eq, if_pos hs]) rfl hs
  · exact .refused (remove_of_absent (Option.not_isSome_iff_eq_none.1 hs)) rfl (by rw [freed?, contains_eq, if_neg hs])

/-- **Every act comes to one of these.** -/
theorem comes (r : Registry α) (a : Act α) : r.Comes a := by
  cases a with
  | reserve => exact comes_reserve r
  | insert id v => exact comes_insert r id v
  | fill id v => exact comes_fill r id v
  | take id => exact comes_take r id
  | remove id => exact comes_remove r id

/-- An id that is handed out is present after it. -/
theorem slot?_of_claimed (h : r.claimed? a = some x) : (r.after a).slot? x = some .reserved := by
  cases r.comes a with
  | claims id k claimed freed after =>
    rw [claimed] at h
    cases h
    rw [after]
    exact slot?_withSlot.trans (if_pos rfl)
  | refused after claimed | binds id v claimed | frees id claimed => rw [claimed] at h; cases h

/-- Only a granted reservation moves the cursor, and it moves it to the id that it hands out. -/
theorem cursor_after : (r.after a).cursor = (r.claimed? a).getD r.cursor := by
  cases r.comes a with
  | refused after claimed => rw [after, claimed]; rfl
  | claims id k claimed freed after => rw [after, claimed]; rfl
  | binds id v claimed freed after => rw [after, claimed]; rfl
  | frees id claimed freed after => rw [after, claimed]; rfl

/-- **An id that is present stays so unless it is freed.** -/
theorem isSome_slot?_after (h : (r.slot? x).isSome) (hf : r.freed? a ≠ some x) : ((r.after a).slot? x).isSome := by
  have hput : ∀ (id : SlotId) (slot : Slot α), ((r.withSlot id slot).slot? x).isSome := by
    intro id slot
    rw [slot?_withSlot]
    split
    · rfl
    · exact h
  cases r.comes a with
  | refused after => rw [after]; exact h
  | claims id k claimed freed after => rw [after]; exact hput id .reserved
  | binds id v claimed freed after => rw [after]; exact hput id (.occupied v)
  | frees id claimed freed after =>
    rw [after, slot?_remove, if_neg (fun hid => hf (by rw [freed, hid]))]
    exact h

/-- An id that was present and is absent in the end was freed. -/
theorem exists_freed : ∀ {acts : List (Act α)} {r : Registry α}, (r.slot? x).isSome →
    (r.afterAll acts).slot? x = none → ∃ m ∈ r.history acts, m.freed? = some x
  | [], r, h, hnone => by
    rw [afterAll, List.foldl_nil] at hnone
    rw [hnone] at h
    cases h
  | a :: acts, r, h, hnone => by
    by_cases hf : r.freed? a = some x
    · exact ⟨⟨r, a⟩, List.mem_cons_self, hf⟩
    · obtain ⟨m, hm, hx⟩ := exists_freed (isSome_slot?_after h hf) hnone
      exact ⟨m, List.mem_cons_of_mem _ hm, hx⟩

end Registry

end SlotRegistry
