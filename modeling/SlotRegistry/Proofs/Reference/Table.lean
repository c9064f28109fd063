import Mathlib.Data.List.Basic
import Mathlib.Data.List.Nodup
import SlotRegistry.Cell
import SlotRegistry.Proofs.Registry.Ring
/-!
# Table — the reference for one registry

A table is a partial map from ids to slots with a cursor, and nothing else.  Its requests say what the requests of a
registry are to do.  A registry of values without user code shows a table when it has the same slots, data for data, and
the same cursor (`Registry.Shows`).  Each request is refused in both for the same cause, or fulfilled in both, and then
what is left of the registry shows what is left of the table.
-/
namespace SlotRegistry

variable {α : Type}

namespace SlotId

/-- Every id, once. -/
def all : List SlotId := (List.range count).map UInt16.ofNat

theorem mem_all (id : SlotId) : id ∈ all :=
  List.mem_map.2 ⟨id.toNat, List.mem_range.2 id.toNat_lt, UInt16.ofNat_toNat⟩

theorem nodup_all : all.Nodup := by
  refine List.Nodup.map_on (fun a ha b hb h => ?_) List.nodup_range
  have := congrArg UInt16.toNat h
  rwa [UInt16.toNat_ofNat_of_lt' (List.mem_range.1 ha), UInt16.toNat_ofNat_of_lt' (List.mem_range.1 hb)] at this

end SlotId

/-- A partial map from ids to slots, and the id handed out by the last reservation. -/
structure Table (α : Type) where
  slots : SlotId → Option (Slot α)
  cursor : SlotId

namespace Table

def empty : Table α := ⟨fun _ => none, 0⟩

def put (t : Table α) (id : SlotId) (slot : Option (Slot α)) : Table α :=
  { t with slots := fun x => if id = x then slot else t.slots x }

/-- The least distance ahead of the cursor at which an id is absent; the cursor itself is no candidate. -/
def distance? (t : Table α) : Option Nat :=
  (List.range' 1 (SlotId.count - 1)).find? (fun k => (t.slots (t.cursor.ahead k)).isNone)

def reserve (t : Table α) : Except Refusal (SlotId × Table α) :=
  match t.distance? with
  | none => .error .noneLeft
  | some k => .ok (t.cursor.ahead k, { t.put (t.cursor.ahead k) (some .reserved) with cursor := t.cursor.ahead k })

def add (t : Table α) (id : SlotId) (v : α) : Except Refusal (Table α) :=
  match t.slots id with
  | none => .ok (t.put id (some (.occupied v)))
  | some _ => .error (.taken id)

def set (t : Table α) (id : SlotId) (v : α) : Except Refusal (Table α) :=
  match t.slots id with
  | none => .error (.unreserved id)
  | some .reserved => .ok (t.put id (some (.occupied v)))
  | some (.occupied _) => .error (.taken id)

def pop (t : Table α) (id : SlotId) : Except Refusal (α × Table α) :=
  match t.slots id with
  | none => .error (.absent id)
  | some .reserved => .error (.unset id)
  | some (.occupied v) => .ok (v, t.put id none)

def get? (t : Table α) (id : SlotId) : Option α := (t.slots id).bind Slot.value?

/-- The present ids. -/
def present (t : Table α) : List SlotId := SlotId.all.filter (fun id => (t.slots id).isSome)

def size (t : Table α) : Nat := t.present.length

/-- The present ids, each with the value bound to it; a reserved id has none. -/
def entries (t : Table α) : List (SlotId × Option α) := t.present.map (fun id => (id, t.get? id))

theorem mem_present {t : Table α} {id : SlotId} : id ∈ t.present ↔ (t.slots id).isSome := by
  simp [present, SlotId.mem_all]

theorem nodup_present (t : Table α) : t.present.Nodup := SlotId.nodup_all.filter _

section

variable {t t' : Table α} {id : SlotId} {v : α}

theorem reserve_eq_ok (h : t.reserve = .ok (id, t')) :
    t.slots id = none ∧ t' = { t.put id (some .reserved) with cursor := id } := by
  unfold reserve at h
  split at h
  · cases h
  · rename_i k hk
    cases h
    have habsent := List.find?_some hk
    exact ⟨Option.isNone_iff_eq_none.1 habsent, rfl⟩

theorem add_eq_ok (h : t.add id v = .ok t') : t.slots id = none ∧ t' = t.put id (some (.occupied v)) := by
  unfold add at h
  split at h <;> cases h
  exact ⟨‹_›, rfl⟩

theorem set_eq_ok (h : t.set id v = .ok t') :
    t.slots id = some .reserved ∧ t' = t.put id (some (.occupied v)) := by
  unfold set at h
  split at h <;> cases h
  exact ⟨‹_›, rfl⟩

theorem pop_eq_ok (h : t.pop id = .ok (v, t')) : t.slots id = some (.occupied v) ∧ t' = t.put id none := by
  unfold pop at h
  split at h <;> cases h
  exact ⟨‹_›, rfl⟩

end

end Table

/-- A slot without the number and the user code of its value. -/
def Slot.bare (slot : Slot (Stored α)) : Slot α := slot.map (·.value.payload)

/-- Both are refused for the same cause, or both are fulfilled, with results that belong together. -/
inductive Both {β γ : Type} (R : β → γ → Prop) : Except Refusal β → Except Refusal γ → Prop
  | refused (why : Refusal) : Both R (.error why) (.error why)
  | fulfilled {b : β} {c : γ} (h : R b c) : Both R (.ok b) (.ok c)

namespace Registry

variable {r : Registry (Stored α)} {t : Table α} {id : SlotId} {s : Stored α}

/-- The values of a registry have no user code. -/
def Plain (r : Registry (Stored α)) : Prop :=
  ∀ id s, r.slot? id = some (.occupied s) → s.value = .plain s.value.payload

/-- A registry shows a table: the same slots, data for data, and the same cursor; its values have no user code. -/
structure Shows (r : Registry (Stored α)) (t : Table α) : Prop where
  slots : ∀ id, (r.slot? id).map Slot.bare = t.slots id
  cursor : r.cursor = t.cursor
  plain : r.Plain

theorem shows_empty : (empty : Registry (Stored α)).Shows .empty :=
  ⟨fun id => by rw [slot?_empty]; rfl, rfl, fun id s h => by rw [slot?_empty] at h; cases h⟩

theorem Plain.remove (h : r.Plain) : (r.remove id).Plain := by
  intro x s hs
  rw [slot?_remove] at hs
  split at hs
  · cases hs
  · exact h x s hs

theorem Plain.withSlot (h : r.Plain) {slot : Slot (Stored α)}
    (hslot : ∀ s, slot = .occupied s → s.value = .plain s.value.payload) : (r.withSlot id slot).Plain := by
  intro x s hs
  rw [slot?_withSlot] at hs
  split at hs
  · exact hslot s (Option.some.inj hs)
  · exact h x s hs

section Shows

variable (h : r.Shows t)
include h

theorem Shows.isSome : (r.slot? id).isSome = (t.slots id).isSome := by
  rw [← h.slots id, Option.isSome_map]

theorem Shows.contains : r.contains id = (t.slots id).isSome := by
  rw [contains_eq, h.isSome]

theorem Shows.get? : (r.get? id).map (·.value.payload) = t.get? id := by
  unfold Registry.get? Table.get?
  rw [← h.slots id]
  cases r.slot? id with
  | none => rfl
  | some slot => cases slot <;> rfl

theorem Shows.ids_perm : r.ids.Perm t.present :=
  (List.perm_ext_iff_of_nodup Std.ExtTreeMap.nodup_keys t.nodup_present).2
    fun _ => mem_ids.trans (by rw [Table.mem_present, h.isSome])

theorem Shows.size : r.size = t.size := by
  rw [Table.size, ← h.ids_perm.length_eq, ids, Std.ExtTreeMap.length_keys]
  rfl

theorem Shows.isEmpty : r.isEmpty = (t.size == 0) := by
  rw [← h.size]
  exact Std.ExtTreeMap.isEmpty_eq_size_beq_zero

/-! ### What a request leaves shows what the table leaves -/

theorem Shows.remove : (r.remove id).Shows (t.put id none) := by
  refine ⟨fun x => ?_, h.cursor, h.plain.remove⟩
  rw [slot?_remove, Table.put]
  by_cases hx : id = x
  · simp [hx]
  · simp [hx, h.slots x]

theorem Shows.withSlot {slot : Slot (Stored α)} {bare : Slot α} (hbare : slot.bare = bare)
    (hslot : ∀ s, slot = .occupied s → s.value = .plain s.value.payload) :
    (r.withSlot id slot).Shows (t.put id (some bare)) := by
  refine ⟨fun x => ?_, h.cursor, h.plain.withSlot hslot⟩
  rw [slot?_withSlot, Table.put]
  by_cases hx : id = x
  · simp [hx, hbare]
  · simp [hx, h.slots x]

/-- **Both claim the same id, or both have none left.** -/
theorem Shows.reserve : Both (fun p q => p.1 = q.1 ∧ p.2.Shows q.2) r.reserve t.reserve := by
  have hfirst : r.firstAbsentAfter r.cursor (SlotId.count - 1) = t.distance?.map t.cursor.ahead := by
    rw [firstAbsentAfter_eq, Table.distance?, h.cursor]
    congr 2
    funext k
    rw [← h.slots, Option.isNone_map]
  rw [Table.reserve]
  cases hd : t.distance? with
  | none =>
    rw [hd] at hfirst
    rw [reserve_of_none hfirst]
    exact .refused .noneLeft
  | some k =>
    rw [hd] at hfirst
    rw [reserve_of_some hfirst]
    have hs : (r.withSlot (t.cursor.ahead k) .reserved).Shows (t.put (t.cursor.ahead k) (some .reserved)) :=
      h.withSlot rfl nofun
    exact .fulfilled ⟨rfl, hs.slots, rfl, hs.plain⟩

theorem Shows.insert (id : SlotId) (hs : s.value = .plain s.value.payload) :
    Both Shows (r.insert id s) (t.add id s.value.payload) := by
  rw [Table.add, ← h.slots id]
  cases hr : r.slot? id with
  | none =>
    rw [insert_of_absent hr]
    exact .fulfilled (h.withSlot rfl (fun _ h => by cases h; exact hs))
  | some slot =>
    rw [insert_of_present (by rw [hr]; rfl)]
    exact .refused (.taken id)

theorem Shows.fill (id : SlotId) (hs : s.value = .plain s.value.payload) :
    Both Shows (r.fill id s) (t.set id s.value.payload) := by
  rw [Table.set, ← h.slots id]
  cases hr : r.slot? id with
  | none =>
    rw [fill_of_absent hr]
    exact .refused (.unreserved id)
  | some slot =>
    cases slot with
    | reserved =>
      rw [fill_of_reserved hr]
      exact .fulfilled (h.withSlot rfl (fun _ h => by cases h; exact hs))
    | occupied v =>
      rw [fill_of_occupied hr]
      exact .refused (.taken id)

theorem Shows.take (id : SlotId) : Both (fun p q => p.1.value.payload = q.1 ∧ p.2.Shows q.2) (r.take id) (t.pop id) := by
  rw [Table.pop, ← h.slots id]
  cases hr : r.slot? id with
  | none =>
    rw [take_of_absent hr]
    exact .refused (.absent id)
  | some slot =>
    cases slot with
    | reserved =>
      rw [take_of_reserved hr]
      exact .refused (.unset id)
    | occupied v =>
      rw [take_of_occupied hr]
      exact .fulfilled ⟨rfl, h.remove⟩

end Shows

end Registry

end SlotRegistry
