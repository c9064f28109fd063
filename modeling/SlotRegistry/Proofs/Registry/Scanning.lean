import SlotRegistry.Proofs.Registry.History
import SlotRegistry.Proofs.Reference.Table
import SlotRegistry.Registry.Scan
/-!
# Scanning — what a scan yields agrees with what the registry answers

A scan comes to each entry of its registry once; the order is left open.  Whatever the order, and however many calls
have been made, the entries got so far are different ids with what the registry answers about them, and the scan tells
exactly how many are ahead (`scan_agrees_with_lookup`).
-/
namespace SlotRegistry
namespace Registry

variable {α : Type}

/-- What a scan yields at an entry: the id with its value, none when it is reserved. -/
def yielded (e : SlotId × Slot α) : SlotId × Option α := (e.1, e.2.value?)

/-- A scan that comes to some entries in the order given. -/
def scanOf (r : Registry α) (es : List (SlotId × Slot α)) : Scan α := ⟨r, es.map Prod.fst⟩

/-- What some calls for the next entry yield, and the scan after them.  A call on a scan that has nothing ahead yields
nothing and leaves it so. -/
def Scan.calls : Nat → Scan α → List (Option (SlotId × Option α)) × Scan α
  | 0, s => ([], s)
  | n + 1, s =>
    match s.next? with
    | none => let (got, last) := calls n s; (none :: got, last)
    | some (entry, rest) => let (got, last) := calls n rest; (some entry :: got, last)

variable {r : Registry α} {es : List (SlotId × Slot α)} {e : SlotId × Slot α} {id : SlotId} {slot : Slot α} {k : Nat}

theorem mem_entries : e ∈ r.entries ↔ r.slot? e.1 = some e.2 :=
  Std.ExtTreeMap.mem_toList_iff_getElem?_eq_some

theorem map_fst_entries : r.entries.map Prod.fst = r.ids := Std.ExtTreeMap.map_fst_toList_eq_keys

theorem length_entries : r.entries.length = r.size := Std.ExtTreeMap.length_toList

theorem contains_iff_mem_ids : r.contains id ↔ id ∈ r.ids := by rw [contains_eq, mem_ids]

/-! ### Calls for the next entry -/

/-- **A call yields the next entry ahead.** -/
theorem next?_scanOf_cons (h : r.slot? e.1 = some e.2) :
    (r.scanOf (e :: es)).next? = some (yielded e, r.scanOf es) := by
  have hvalue : r.get? e.1 = e.2.value? := by rw [get?, h]; rfl
  rw [yielded, ← hvalue]
  rfl

theorem next?_scanOf_nil : (r.scanOf []).next? = none := rfl

theorem sizeHint_scanOf : (r.scanOf es).sizeHint = (es.length, some es.length) := by
  rw [scanOf, Scan.sizeHint, List.length_map]

/-- **What many calls yield.**  Each yields one of the entries ahead, and from the one after the last on they yield
nothing. -/
theorem calls_scanOf : ∀ (k : Nat) {es : List (SlotId × Slot α)}, (∀ e ∈ es, r.slot? e.1 = some e.2) →
    (r.scanOf es).calls k =
      (((es.take k).map yielded).map some ++ List.replicate (k - es.length) none, r.scanOf (es.drop k))
  | 0, es, _ => by simp [Scan.calls]
  | k + 1, [], h => by
    rw [Scan.calls, next?_scanOf_nil, calls_scanOf k h]
    simp [List.replicate_succ]
  | k + 1, e :: es, h => by
    have ih := calls_scanOf k fun e' he => h e' (List.mem_cons_of_mem e he)
    simp only [Scan.calls, next?_scanOf_cons (h e List.mem_cons_self), ih]
    simp

/-- Taking entries until there are no more comes to the same, without the calls that yield nothing. -/
theorem advance_scanOf : ∀ (k : Nat) {es : List (SlotId × Slot α)}, (∀ e ∈ es, r.slot? e.1 = some e.2) →
    (r.scanOf es).advance k = ((es.take k).map yielded, r.scanOf (es.drop k))
  | 0, es, _ => by simp [Scan.advance]
  | k + 1, [], _ => by
    rw [Scan.advance, next?_scanOf_nil]
    rfl
  | k + 1, e :: es, h => by
    have ih := advance_scanOf k fun e' he => h e' (List.mem_cons_of_mem e he)
    simp only [Scan.advance, next?_scanOf_cons (h e List.mem_cons_self), ih, List.take_succ_cons, List.map_cons,
      List.drop_succ_cons]

/-! ### A scan of a whole registry -/

/-- A scan of the whole registry comes to its entries in the order of the ids. -/
theorem scan_eq_scanOf : r.scan = r.scanOf r.entries := by rw [scan, scanOf, map_fst_entries]

/-- **What calls on the scan of a registry yield**: its entries in the order of the ids, and then nothing. -/
theorem calls_scan (k : Nat) : r.scan.calls k =
    (((r.entries.take k).map yielded).map some ++ List.replicate (k - r.size) none, r.scanOf (r.entries.drop k)) := by
  rw [scan_eq_scanOf, calls_scanOf k fun e he => mem_entries.1 he, length_entries]

/-- There are as many entries as ids that the registry contains. -/
theorem size_eq_length_filter : r.size = (SlotId.all.filter r.contains).length := by
  have hperm : r.ids.Perm (SlotId.all.filter r.contains) :=
    (List.perm_ext_iff_of_nodup Std.ExtTreeMap.nodup_keys (SlotId.nodup_all.filter _)).2 fun id => by
      rw [List.mem_filter, contains_iff_mem_ids]
      exact (and_iff_right (SlotId.mem_all id)).symm
  rw [← hperm.length_eq, ids, Std.ExtTreeMap.length_keys, size]

theorem map_fst_yielded : (es.map yielded).map Prod.fst = es.map Prod.fst := by
  rw [List.map_map]
  rfl

/-- **What is yielded at an entry is what the registry answers about its id.** -/
theorem yielded_of_slot? (h : r.slot? e.1 = some e.2) :
    r.contains (yielded e).1 ∧ (r.slot? (yielded e).1).isSome ∧ (yielded e).2 = r.get? (yielded e).1 := by
  have hpresent : (r.slot? (yielded e).1).isSome := by rw [yielded, h]; rfl
  refine ⟨by rw [contains_eq]; exact hpresent, hpresent, ?_⟩
  rw [yielded, get?, h]
  rfl

/-- Only a reserved id is yielded without a value. -/
theorem yielded_eq_none : yielded e = (id, none) ↔ e = (id, .reserved) := by
  obtain ⟨x, slot⟩ := e
  cases slot <;> simp [yielded, Slot.value?]

/-- **A scan agrees with the registry at every stage.**  Whatever order the entries come in, after any number of calls
those that yielded an entry are as many as there could be, each with another id and with the value the registry
answers for it, and every call after the last entry yields nothing; what the scan says is ahead is what is left of the
size.  When it has come to the end, the ids are the ones the registry contains, and those yielded without a value are
the reserved ones.  The scan that programs get is one of these: it comes to the entries in the order of their ids. -/
theorem scan_agrees_with_lookup (order : es.Perm r.entries) (k : Nat) :
    ∃ (items : List (SlotId × Option α)) (last : Scan α),
      (r.scanOf es).calls k = (items.map some ++ List.replicate (k - r.size) none, last) ∧
      (r.scanOf es).advance k = (items, last) ∧
      items.length = min k r.size ∧
      (items.map Prod.fst).Nodup ∧
      (∀ item ∈ items, r.contains item.1 ∧ (r.slot? item.1).isSome ∧ item.2 = r.get? item.1) ∧
      last.sizeHint = (r.size - k, some (r.size - k)) ∧
      (last.next? = none ↔ r.size ≤ k) ∧
      (r.size ≤ k → ∀ id, (id ∈ items.map Prod.fst ↔ r.contains id) ∧
        ((id, none) ∈ items ↔ r.slot? id = some .reserved)) ∧
      r.size = (SlotId.all.filter r.contains).length ∧
      r.scan = r.scanOf r.entries := by
  have hlength : es.length = r.size := by rw [order.length_eq, length_entries]
  have hids : (es.map Prod.fst).Perm r.ids := map_fst_entries (r := r) ▸ order.map Prod.fst
  have hslots : ∀ e ∈ es, r.slot? e.1 = some e.2 := fun e he => mem_entries.1 (order.mem_iff.1 he)
  refine ⟨(es.take k).map yielded, r.scanOf (es.drop k), by rw [calls_scanOf k hslots, hlength],
    advance_scanOf k hslots, by rw [List.length_map, List.length_take, hlength], ?_, ?_, ?_, ?_, ?_,
    size_eq_length_filter, scan_eq_scanOf⟩
  · rw [map_fst_yielded, List.map_take]
    exact (hids.nodup_iff.2 Std.ExtTreeMap.nodup_keys).sublist (List.take_sublist _ _)
  · intro item hitem
    obtain ⟨e, he, rfl⟩ := List.mem_map.1 hitem
    exact yielded_of_slot? (hslots e (List.mem_of_mem_take he))
  · rw [sizeHint_scanOf, List.length_drop, hlength]
  · rw [← hlength, ← List.drop_eq_nil_iff]
    cases hdrop : es.drop k with
    | nil => exact iff_of_true next?_scanOf_nil rfl
    | cons e rest =>
      rw [next?_scanOf_cons (hslots e (List.mem_of_mem_drop (hdrop ▸ List.mem_cons_self)))]
      exact iff_of_false (Option.some_ne_none _) (List.cons_ne_nil _ _)
  · intro hall id
    rw [List.take_of_length_le (by rw [hlength]; exact hall)]
    refine ⟨by rw [map_fst_yielded, hids.mem_iff, contains_iff_mem_ids], ?_⟩
    rw [List.mem_map]
    constructor
    · rintro ⟨e, he, hnone⟩
      rw [yielded_eq_none.1 hnone] at he
      exact hslots _ he
    · exact fun hreserved => ⟨(id, .reserved), order.mem_iff.2 (mem_entries.2 hreserved), rfl⟩

/-- Id 1 is reserved, ids 2 and 5 have values, and id 3 is free again. -/
def oneReserved : Registry String :=
  empty.afterAll [.reserve, .insert 5 "five", .reserve, .insert 3 "three", .take 3, .fill 2 "two"]

/-- A scan that comes to id 2 first yields all three entries, the reserved one without a value, and then nothing. -/
theorem scan_of_oneReserved :
    [(2, .occupied "two"), (1, .reserved), (5, .occupied "five")].Perm oneReserved.entries ∧
    ∃ (items : List (SlotId × Option String)) (last : Scan String),
      (oneReserved.scanOf [(2, .occupied "two"), (1, .reserved), (5, .occupied "five")]).calls 4 =
        (items.map some ++ [none], last) ∧
      items.length = 3 ∧ (1, none) ∈ items ∧ last.sizeHint = (0, some 0) ∧ last.next? = none := by
  have hentries : oneReserved.entries = [(1, .reserved), (2, .occupied "two"), (5, .occupied "five")] := by
    decide +kernel
  have order : [(2, .occupied "two"), (1, .reserved), (5, .occupied "five")].Perm oneReserved.entries := by
    rw [hentries]
    exact .swap _ _ _
  have hsize : oneReserved.size = 3 := by rw [← length_entries, hentries]; rfl
  have hreserved : oneReserved.slot? 1 = some .reserved :=
    mem_entries.1 (by rw [hentries]; exact List.mem_cons_self : ((1, .reserved) : SlotId × Slot String) ∈ _)
  obtain ⟨items, last, hcalls, -, hlength, -, -, hremaining, hend, hfinal, -⟩ := scan_agrees_with_lookup order 4
  rw [hsize] at hcalls hlength hremaining hend hfinal
  exact ⟨order, items, last, hcalls, hlength, ((hfinal (by decide) 1).2).2 hreserved, hremaining,
    hend.2 (by decide)⟩

end Registry

end SlotRegistry
