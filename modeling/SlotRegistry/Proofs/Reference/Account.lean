import SlotRegistry.Proofs.Reference.Table
/-!
# Account — what is acquired and what is freed

A deed is what a request did to an id: it acquired the id, bound a value to it, or freed it.  Each deed is done to one
kind of slot and leaves another (`Turn`), and the account of an id follows from that alone (`Path.account`).
-/
namespace SlotRegistry

variable {α : Type}

/-- What a request did to an id. -/
inductive Deed (α : Type)
  | reserved
  | added (v : α)
  | set (v : α)
  | popped (v : α)
  | released

namespace Deed

def acquires : Deed α → Bool
  | reserved | added _ => true
  | set _ | popped _ | released => false

def frees : Deed α → Bool
  | popped _ | released => true
  | reserved | added _ | set _ => false

def sets : Deed α → Bool
  | set _ => true
  | reserved | added _ | popped _ | released => false

def adds : Deed α → Bool
  | added _ => true
  | reserved | set _ | popped _ | released => false

def pops : Deed α → Bool
  | popped _ => true
  | reserved | added _ | set _ | released => false

end Deed

/-- A deed is done to one kind of slot and leaves another. -/
inductive Turn : Option (Slot α) → Deed α → Option (Slot α) → Prop
  | reserved : Turn none .reserved (some .reserved)
  | added (v : α) : Turn none (.added v) (some (.occupied v))
  | set (v : α) : Turn (some .reserved) (.set v) (some (.occupied v))
  | popped (v : α) : Turn (some (.occupied v)) (.popped v) none
  | released (slot : Slot α) : Turn (some slot) .released none

/-- Deeds done to one id, one after the other. -/
inductive Path : Option (Slot α) → List (Deed α) → Option (Slot α) → Prop
  | nil (a : Option (Slot α)) : Path a [] a
  | cons {a b c : Option (Slot α)} {d : Deed α} {ds : List (Deed α)} (turn : Turn a d b) (rest : Path b ds c) :
      Path a (d :: ds) c

/-- **The account of one id** that was absent at first: `present` says whether it is present in the end. -/
structure Account (ds : List (Deed α)) (present : Bool) : Prop where
  /-- Acquisitions and frees take turns, beginning with an acquisition. -/
  alternate : ∀ (i : Nat) (d : Deed α), (ds.filter fun d => !d.sets)[i]? = some d → d.acquires = (i % 2 == 0)
  /-- There is one acquisition more than there are frees if the id is present, and otherwise as many. -/
  balance : ds.countP Deed.acquires = ds.countP Deed.frees + present.toNat
  /-- Between an acquisition and the next free a value is set once at most, and only if the id was reserved. -/
  period : ∀ (before : List (Deed α)) (d : Deed α) (mid after : List (Deed α)), ds = before ++ d :: (mid ++ after) →
    d.acquires → (∀ x ∈ mid, x.frees = false) → mid = [] ∨ d = .reserved ∧ ∃ v, mid = [.set v]
  /-- A value is popped that was added, or set, as the last deed before. -/
  popped : ∀ (before : List (Deed α)) (v : α) (after : List (Deed α)), ds = before ++ .popped v :: after →
    ∃ earlier, before = earlier ++ [.added v] ∨ before = earlier ++ [.reserved, .set v]

section

variable {a b c : Option (Slot α)} {d : Deed α} {ds ds' : List (Deed α)} {v : α}

theorem path_nil (h : Path a [] b) : b = a := by
  cases h
  rfl

theorem path_cons (h : Path a (d :: ds) c) : ∃ b, Turn a d b ∧ Path b ds c := by
  cases h with
  | cons turn rest => exact ⟨_, turn, rest⟩

theorem path_append : ∀ {ds : List (Deed α)} {a : Option (Slot α)}, Path a (ds ++ ds') c →
    ∃ b, Path a ds b ∧ Path b ds' c
  | [], a, h => ⟨a, .nil a, h⟩
  | d :: ds, a, h => by
    obtain ⟨b, turn, rest⟩ := path_cons h
    obtain ⟨e, hds, hds'⟩ := path_append rest
    exact ⟨e, .cons turn hds, hds'⟩

theorem Path.balance (h : Path a ds b) :
    ds.countP Deed.acquires + a.isSome.toNat = ds.countP Deed.frees + b.isSome.toNat := by
  induction h with
  | nil a => simp
  | cons turn rest ih =>
    rw [List.countP_cons, List.countP_cons]
    cases turn <;> simp [Deed.acquires, Deed.frees] at ih ⊢ <;> omega

/-- From an absent id the turns begin with an acquisition, from a present one with a free. -/
theorem Path.alternate (h : Path a ds b) (i : Nat) (hd : (ds.filter fun d => !d.sets)[i]? = some d) :
    d.acquires = ((i % 2 == 0) ^^ a.isSome) := by
  induction h generalizing i with
  | nil a => cases hd
  | @cons a b c e ds turn rest ih =>
    have hstep : ∀ j, (i = j + 1 → ((j + 1) % 2 == 0) = !(j % 2 == 0)) := by
      intro j _
      rcases Nat.mod_two_eq_zero_or_one j with hj | hj <;> simp [Nat.add_mod, hj]
    cases turn with
    | set v =>
      rw [List.filter_cons_of_neg (by simp [Deed.sets])] at hd
      exact ih i hd
    | reserved | added v | popped v | released slot =>
      rw [List.filter_cons_of_pos (by rfl)] at hd
      cases i with
      | zero => cases hd; rfl
      | succ j =>
        have := ih j hd
        rw [this, hstep j rfl]
        simp

/-- Nothing but a free is done to an occupied id. -/
theorem Path.of_occupied (h : Path (some (.occupied v)) ds c) (hds : ∀ x ∈ ds, x.frees = false) : ds = [] := by
  cases h with
  | nil => rfl
  | cons turn rest =>
    cases turn with
    | popped => cases hds _ List.mem_cons_self
    | released => cases hds _ List.mem_cons_self

/-- But for a free, one value is set to a reserved id at most. -/
theorem Path.of_reserved (h : Path (some .reserved) ds c) (hds : ∀ x ∈ ds, x.frees = false) :
    ds = [] ∨ ∃ v, ds = [.set v] := by
  cases h with
  | nil => exact .inl rfl
  | cons turn rest =>
    cases turn with
    | set v =>
      rw [rest.of_occupied fun x hx => hds x (List.mem_cons_of_mem _ hx)]
      exact .inr ⟨v, rfl⟩
    | released => cases hds _ List.mem_cons_self

theorem Path.last (h : Path a ds b) (hab : a ≠ b) : ∃ before d e, ds = before ++ [d] ∧ Path a before e ∧ Turn e d b := by
  rcases List.eq_nil_or_concat ds with rfl | ⟨before, d, rfl⟩
  · exact absurd (path_nil h).symm hab
  · rw [List.concat_eq_append] at h ⊢
    obtain ⟨e, hbefore, hd⟩ := path_append h
    obtain ⟨b', turn, rest⟩ := path_cons hd
    rw [path_nil rest]
    exact ⟨before, d, e, rfl, hbefore, turn⟩

/-- A value comes to be bound to an absent id by being added, or by being set after a reservation. -/
theorem Path.to_occupied (h : Path none ds (some (.occupied v))) :
    ∃ earlier, ds = earlier ++ [.added v] ∨ ds = earlier ++ [.reserved, .set v] := by
  obtain ⟨before, d, e, rfl, hbefore, turn⟩ := h.last nofun
  cases turn with
  | added => exact ⟨before, .inl rfl⟩
  | set =>
    obtain ⟨earlier, d, e, rfl, -, turn⟩ := hbefore.last nofun
    cases turn with
    | reserved => exact ⟨earlier, .inr (by rw [List.append_assoc]; rfl)⟩

/-- **What is done to an absent id, and after it, makes an account.** -/
theorem Path.account (h : Path none ds b) : Account ds b.isSome where
  alternate i d hd := by simpa using h.alternate i hd
  balance := by simpa using h.balance
  period before d mid after heq hd hmid := by
    rw [heq] at h
    obtain ⟨e, -, h⟩ := path_append h
    obtain ⟨f, turn, h⟩ := path_cons h
    obtain ⟨g, h, -⟩ := path_append h
    cases turn with
    | reserved =>
      rcases h.of_reserved hmid with hnil | hset
      · exact .inl hnil
      · exact .inr ⟨rfl, hset⟩
    | added v => exact .inl (h.of_occupied hmid)
    | set | popped | released => cases hd
  popped before v after heq := by
    rw [heq] at h
    obtain ⟨e, hbefore, h⟩ := path_append h
    obtain ⟨f, turn, -⟩ := path_cons h
    cases turn
    exact hbefore.to_occupied

/-- Deeds of a kind that cannot follow each other: one at most is done. -/
theorem Path.at_most_one {kind : Deed α → Bool} (h : Path a ds b) (hds : ∀ x ∈ ds, kind x)
    (hkind : ∀ {a b c : Option (Slot α)} {d e : Deed α}, Turn a d b → Turn b e c → kind d → kind e → False) :
    ds = [] ∨ ∃ d, ds = [d] := by
  cases h with
  | nil => exact .inl rfl
  | @cons _ _ _ d _ turn rest =>
    cases rest with
    | nil => exact .inr ⟨d, rfl⟩
    | cons turn' rest' =>
      exact (hkind turn turn' (hds _ List.mem_cons_self) (hds _ (List.mem_cons_of_mem _ List.mem_cons_self))).elim

end

/-! ### The deeds of a whole table -/

/-- How many ids are present. -/
def presence (slots : SlotId → Option (Slot α)) : Nat := (SlotId.all.filter fun id => (slots id).isSome).length

theorem Table.size_eq (t : Table α) : t.size = presence t.slots := rfl

/-- Deeds done to the ids of a table, one after the other. -/
inductive Doings : (SlotId → Option (Slot α)) → List (SlotId × Deed α) → (SlotId → Option (Slot α)) → Prop
  | nil (slots : SlotId → Option (Slot α)) : Doings slots [] slots
  | cons {slots slots' : SlotId → Option (Slot α)} {id : SlotId} {d : Deed α} {b : Option (Slot α)}
      {ds : List (SlotId × Deed α)} (turn : Turn (slots id) d b)
      (rest : Doings (fun x => if id = x then b else slots x) ds slots') : Doings slots ((id, d) :: ds) slots'

/-- The deeds done to one id. -/
def ofId (id : SlotId) (ds : List (SlotId × Deed α)) : List (Deed α) :=
  (ds.filter fun e => e.1 = id).map Prod.snd

theorem ofId_append (id : SlotId) (ds ds' : List (SlotId × Deed α)) :
    ofId id (ds ++ ds') = ofId id ds ++ ofId id ds' := by
  rw [ofId, List.filter_append, List.map_append]
  rfl

section

variable {slots slots' : SlotId → Option (Slot α)} {ds : List (SlotId × Deed α)} {id : SlotId}

theorem Doings.append {slots'' : SlotId → Option (Slot α)} {ds' : List (SlotId × Deed α)} (h : Doings slots ds slots')
    (h' : Doings slots' ds' slots'') : Doings slots (ds ++ ds') slots'' := by
  induction h with
  | nil => exact h'
  | cons turn _ ih => exact .cons turn (ih h')

theorem Doings.path (h : Doings slots ds slots') (id : SlotId) : Path (slots id) (ofId id ds) (slots' id) := by
  induction h with
  | nil => exact .nil _
  | @cons slots slots' x d b ds turn rest ih =>
    by_cases hx : x = id
    · subst hx
      simp only [if_true] at ih
      simp only [ofId, List.filter_cons, decide_true, if_true, List.map_cons]
      exact .cons turn ih
    · simp only [hx, if_false] at ih
      simp only [ofId, List.filter_cons, hx, decide_false, Bool.false_eq_true, if_false]
      exact ih

theorem presence_of_absent (slots : SlotId → Option (Slot α)) {b : Option (Slot α)} (ha : slots id = none)
    (hb : b.isSome) :
    presence (fun x => if id = x then b else slots x) = presence slots + 1 := by
  have hperm : (SlotId.all.filter fun x => (if id = x then b else slots x).isSome).Perm
      (id :: SlotId.all.filter fun x => (slots x).isSome) := by
    refine (List.perm_ext_iff_of_nodup (SlotId.nodup_all.filter _) (List.nodup_cons.2 ⟨?_, SlotId.nodup_all.filter _⟩)).2
      (fun x => ?_)
    · simp [ha]
    · by_cases hx : id = x
      · simp [hx, hb, SlotId.mem_all]
      · simp [hx, Ne.symm hx]
  rw [presence, hperm.length_eq, List.length_cons]
  rfl

theorem presence_of_same (slots : SlotId → Option (Slot α)) {b : Option (Slot α)} (hb : b.isSome = (slots id).isSome) :
    presence (fun x => if id = x then b else slots x) = presence slots := by
  unfold presence
  congr 2
  funext x
  by_cases hx : id = x
  · subst hx
    simp only [if_true, hb]
  · simp only [hx, if_false]

/-- The ids that are present, when one slot becomes another. -/
theorem presence_put (slots : SlotId → Option (Slot α)) (id : SlotId) (b : Option (Slot α)) :
    presence (fun x => if id = x then b else slots x) + (slots id).isSome.toNat = presence slots + b.isSome.toNat := by
  cases ha : slots id with
  | none =>
    cases b with
    | none => rw [presence_of_same slots (by rw [ha])]
    | some b => simp [presence_of_absent slots (b := some b) ha rfl]
  | some a =>
    cases b with
    | some b => simp [presence_of_same slots (b := some b) (by rw [ha]; rfl)]
    | none =>
      -- the id was absent in what is left, and became what it is
      have hslots : (fun x => if id = x then some a else if id = x then none else slots x) = slots := by
        funext x
        by_cases hx : id = x
        · rw [if_pos hx, ← hx, ha]
        · rw [if_neg hx, if_neg hx]
      have h := presence_of_absent (fun x => if id = x then none else slots x) (if_pos rfl) (b := some a) rfl
      rw [hslots] at h
      simpa using h.symm

/-- **As many ids are present as were acquired and not freed.** -/
theorem Doings.presence (h : Doings slots ds slots') :
    presence slots' + ds.countP (fun e => e.2.frees) = presence slots + ds.countP (fun e => e.2.acquires) := by
  induction h with
  | nil => rfl
  | @cons slots slots' id d b ds turn rest ih =>
    have hput := presence_put slots id b
    have hturn : (slots id).isSome.toNat + d.acquires.toNat = b.isSome.toNat + d.frees.toNat := by
      generalize slots id = a at turn
      cases turn <;> rfl
    have hcount : ∀ kind : Deed α → Bool, ((id, d) :: ds).countP (fun e => kind e.2) =
        ds.countP (fun e => kind e.2) + (kind d).toNat := by
      intro kind
      rw [List.countP_cons]
      cases kind d <;> rfl
    rw [hcount, hcount]
    omega

end

end SlotRegistry
