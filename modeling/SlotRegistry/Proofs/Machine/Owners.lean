import SlotRegistry.Proofs.Machine.Trade
/-!
# Owners — every owner of a cell is counted

A cell has one owner for each handle that belongs to it and one for each unfinished call that keeps it, and no others;
and the journal tells that it was closed exactly when none is left (`World.Owned`).  A call keeps this as it goes on,
until user code breaks off where it may not (`step_counted`).
-/
namespace SlotRegistry

variable {α : Type}

/-- The entry tells that the cell was closed. -/
def Entry.closes (n : CellId) : Entry α → Bool
  | closed m => decide (m = n)
  | created _ | handed _ _ _ | returned _ | destroyed _ | event _ _ _ _ | note _ _ => false

/-- One reference to the cell `n`. -/
def one (n m : CellId) : Nat := if n = m then 1 else 0

/-- What an unfinished call counts for among the owners of a cell. -/
def Scope.refs (s : Scope α) (m : CellId) : Nat := s.stake.elim 0 fun held => one held.1 m

theorem length_stakesAt_call {s : Scope α} {next : Outcome α → Program α} {t : Thread} {stack : List (Frame α)}
    (m : CellId) : (stakesAt m t (.call s next :: stack)).length = (stakesAt m t stack).length + s.refs m := by
  unfold Scope.refs
  cases hs : s.stake with
  | none =>
    rw [stakesAt_call_of_none hs]
    rfl
  | some held =>
    obtain ⟨n, k⟩ := held
    by_cases hn : n = m
    · subst hn
      rw [stakesAt_call_self hs]
      simp [one]
    · rw [stakesAt_call_of_ne hs hn]
      simp [one, hn]

/-- Handles under distinct names: without one of them, the others are left. -/
theorem countP_filter_lookup {handles : List (Handle × CellId)} (keys : (handles.map Prod.fst).Nodup) (h : Handle)
    (m : CellId) : (handles.filter fun b => b.1 ≠ h).countP (fun b => b.2 = m) + (handles.lookup h).elim 0 (one · m) =
      handles.countP fun b => b.2 = m := by
  induction handles with
  | nil => rfl
  | cons b rest ih =>
    obtain ⟨k, n⟩ := b
    obtain ⟨hk, hrest⟩ := List.nodup_cons.1 keys
    have ih := ih hrest
    rw [List.filter_cons, List.countP_cons, List.lookup_cons]
    by_cases hkh : k = h
    · subst hkh
      have hnone : rest.lookup k = none := by
        rw [List.lookup_eq_none_iff]
        intro b hb
        rw [bne_iff_ne]
        intro heq
        exact hk (List.mem_map.2 ⟨b, hb, heq.symm⟩)
      rw [hnone] at ih
      rw [← ih]
      simp [one]
    · have hbeq : (h == k) = false := beq_eq_false_iff_ne.2 (Ne.symm hkh)
      have hpos : decide (k ≠ h) = true := decide_eq_true hkh
      rw [hbeq, if_pos hpos, List.countP_cons, ← ih]
      dsimp only
      omega

namespace World

/-- How many owners a cell has, none when it is not there. -/
def owners? (w : World α) (n : CellId) : Option Nat := (w.cells[n]?).map Cell.owners

/-- How many handles belong to a cell. -/
def boundTo (w : World α) (n : CellId) : Nat := w.handles.countP fun b => b.2 = n

/-- **Every owner is counted:** the handles, and the references that there are besides. -/
structure Owned (refs : CellId → Nat) (w : World α) : Prop where
  count : ∀ n, (w.owners? n).getD 0 = w.boundTo n + refs n
  keys : (w.handles.map Prod.fst).Nodup
  once : ∀ n, w.journal.countP (Entry.closes n) = if w.owners? n = some 0 then 1 else 0

variable {w w' : World α} {refs : CellId → Nat} {n m : CellId} {cell cell' : Cell α} {h : Handle} {e : Entry α}

theorem dead_iff : w.Dead n ↔ w.owners? n = some 0 := by
  unfold Dead owners?
  rw [Option.map_eq_some_iff]

theorem owners?_of_getElem? (hc : w.cells[n]? = some cell) : w.owners? n = some cell.owners := by
  rw [owners?, hc]
  rfl

theorem owners?_put (cell' : Cell α) (hc : w.cells[n]? = some cell) (m : CellId) :
    (w.put n cell').owners? m = if n = m then some cell'.owners else w.owners? m := by
  have hn := (List.getElem?_eq_some_iff.1 hc).1
  rw [owners?, put, List.getElem?_set]
  by_cases hm : n = m
  · rw [if_pos hm, if_pos hm, if_pos hn]
    rfl
  · rw [if_neg hm, if_neg hm]
    rfl

theorem owned_empty (v : Verbosity) : (empty v : World α).Owned fun _ => 0 := by
  constructor
  · intro n
    rfl
  · exact List.nodup_nil
  · intro n
    rfl

theorem Owned.of_refs {refs' : CellId → Nat} (hw : w.Owned refs) (hrefs : ∀ n, refs' n = refs n) : w.Owned refs' := by
  rw [show refs' = refs from funext hrefs]
  exact hw

theorem Owned.same (hw : w.Owned refs) (owners : ∀ m, w'.owners? m = w.owners? m) (handles : w'.handles = w.handles)
    (journal : ∀ m, w'.journal.countP (Entry.closes m) = w.journal.countP (Entry.closes m)) : w'.Owned refs := by
  constructor
  · intro m
    rw [owners, boundTo, handles]
    exact hw.count m
  · rw [handles]
    exact hw.keys
  · intro m
    rw [journal, owners]
    exact hw.once m

theorem Owned.log (hw : w.Owned refs) (he : ∀ m, e.closes m = false) : (w.log e).Owned refs := by
  refine hw.same (fun m => rfl) rfl fun m => ?_
  rw [World.log, List.countP_cons, he]
  rfl

theorem Owned.emit (hw : w.Owned refs) {e : Event} {t : Thread} {lock : Lock} : (w.emit e n t lock).Owned refs := by
  unfold World.emit
  split
  · exact hw.log fun _ => rfl
  · exact hw

/-- A cell is written, and its owners stay. -/
theorem Owned.put (hw : w.Owned refs) (hc : w.cells[n]? = some cell) (ho : cell'.owners = cell.owners) :
    (w.put n cell').Owned refs := by
  refine hw.same (fun m => ?_) rfl fun m => rfl
  rw [owners?_put cell' hc]
  by_cases hm : n = m
  · rw [if_pos hm, ho, ← hm, owners?_of_getElem? hc]
  · rw [if_neg hm]

theorem Owned.count_of_getElem? (hw : w.Owned refs) (hc : w.cells[n]? = some cell) :
    cell.owners = w.boundTo n + refs n := by
  have hcount := hw.count n
  rw [owners?_of_getElem? hc] at hcount
  exact hcount

theorem Owned.owners_ne_zero (hw : w.Owned refs) (hf : w.find? h = some n) (hc : w.cells[n]? = some cell) :
    cell.owners ≠ 0 := by
  have hpos : 0 < w.boundTo n := List.countP_pos_iff.2 ⟨(h, n), Config.mem_of_find? hf, by simp⟩
  have hcount := hw.count_of_getElem? hc
  omega

/-- A cell that something refers to is there, and has owners. -/
theorem Owned.exists_cell (hw : w.Owned fun m => refs m + one n m) :
    ∃ cell, w.cells[n]? = some cell ∧ cell.owners ≠ 0 := by
  have hcount := hw.count n
  simp only [one, if_true] at hcount
  cases hc : w.cells[n]? with
  | none =>
    rw [owners?, hc, Option.map_none, Option.getD_none] at hcount
    omega
  | some cell =>
    rw [owners?_of_getElem? hc, Option.getD_some] at hcount
    exact ⟨cell, rfl, by omega⟩

theorem Owned.addOwner (hw : w.Owned refs) (hc : w.cells[n]? = some cell) (alive : cell.owners ≠ 0)
    (ho : cell'.owners = cell.owners + 1) : (w.put n cell').Owned fun m => refs m + one n m := by
  have hcell := hw.count_of_getElem? hc
  refine ⟨fun m => ?_, hw.keys, fun m => ?_⟩
  · have hcount := hw.count m
    rw [owners?_put cell' hc]
    simp only [one]
    by_cases hm : n = m
    · subst hm
      rw [if_pos rfl, if_pos rfl, Option.getD_some, ho, hcell, Nat.add_assoc]
      rfl
    · rw [if_neg hm, if_neg hm]
      exact hcount
  · have honce := hw.once m
    rw [owners?_put cell' hc]
    by_cases hm : n = m
    · subst hm
      rw [owners?_of_getElem? hc, if_neg (fun h => alive (Option.some.inj h))] at honce
      rw [if_pos rfl, ho, if_neg (fun h => Nat.succ_ne_zero _ (Option.some.inj h))]
      exact honce
    · rw [if_neg hm]
      exact honce

/-- One owner goes, and others are left. -/
theorem Owned.dropOwner (hw : w.Owned fun m => refs m + one n m) (hc : w.cells[n]? = some cell)
    (others : cell.owners ≠ 1) : (w.put n { cell with owners := cell.owners - 1 }).Owned refs := by
  have hcell := hw.count_of_getElem? hc
  simp only [one, if_true] at hcell
  refine ⟨fun m => ?_, hw.keys, fun m => ?_⟩
  · have hcount := hw.count m
    rw [owners?_put _ hc]
    simp only [one] at hcount
    by_cases hm : n = m
    · subst hm
      rw [if_pos rfl, Option.getD_some]
      simp only
      change cell.owners - 1 = w.boundTo n + refs n
      omega
    · rw [if_neg hm] at hcount ⊢
      exact hcount
  · have honce := hw.once m
    rw [owners?_put _ hc]
    by_cases hm : n = m
    · subst hm
      rw [owners?_of_getElem? hc, if_neg (fun h => by have := Option.some.inj h; omega)] at honce
      rw [if_pos rfl, if_neg (fun h => by have : cell.owners - 1 = 0 := Option.some.inj h; omega)]
      exact honce
    · rw [if_neg hm]
      exact honce

/-- **The last owner goes, and the cell is closed.** -/
theorem Owned.close (hw : w.Owned fun m => refs m + one n m) (hc : w.cells[n]? = some cell) (last : cell.owners = 1) :
    ((w.put n { cell with owners := 0 }).log (.closed n)).Owned refs := by
  have hcell := hw.count_of_getElem? hc
  simp only [one, if_true] at hcell
  have howners : ∀ m, ((w.put n { cell with owners := 0 }).log (.closed n)).owners? m =
      if n = m then some 0 else w.owners? m := owners?_put { cell with owners := 0 } hc
  refine ⟨fun m => ?_, hw.keys, fun m => ?_⟩
  · have hcount := hw.count m
    rw [howners]
    simp only [one] at hcount
    by_cases hm : n = m
    · subst hm
      rw [if_pos rfl, Option.getD_some]
      change 0 = w.boundTo n + refs n
      omega
    · rw [if_neg hm] at hcount ⊢
      exact hcount
  · have honce := hw.once m
    rw [howners, World.log, List.countP_cons]
    by_cases hm : n = m
    · subst hm
      rw [owners?_of_getElem? hc, if_neg (fun h => by have := Option.some.inj h; omega)] at honce
      rw [if_pos rfl, if_pos rfl, if_pos (by simp [Entry.closes])]
      change w.journal.countP (Entry.closes n) + 1 = 1
      omega
    · rw [if_neg hm, if_neg (by simp [Entry.closes, hm])]
      exact honce

/-- A handle takes over one owner, and leaves the one it had. -/
theorem Owned.bind (hw : w.Owned fun m => refs m + one n m) (h : Handle) :
    (w.bind h n).Owned fun m => refs m + (w.find? h).elim 0 (one · m) := by
  refine ⟨fun m => ?_, ?_, hw.once⟩
  · have hcount := hw.count m
    have hleft := countP_filter_lookup hw.keys h m
    have hbound : (w.bind h n).boundTo m = (w.handles.filter fun b => b.1 ≠ h).countP (fun b => b.2 = m) + one n m := by
      simp only [boundTo, World.bind, unbind, List.countP_cons, one, decide_eq_true_eq]
    rw [hbound]
    change (w.owners? m).getD 0 = _
    rw [hcount, boundTo, ← hleft]
    change _ + (w.handles.lookup h).elim 0 (one · m) + (refs m + one n m) = _ +
      (refs m + (w.handles.lookup h).elim 0 (one · m))
    omega
  · rw [World.bind, List.map_cons, List.nodup_cons]
    constructor
    · intro hmem
      obtain ⟨b, hb, hk⟩ := List.mem_map.1 hmem
      have hne := (List.mem_filter.1 hb).2
      rw [hk] at hne
      simp at hne
    · exact hw.keys.sublist (List.filter_sublist.map _)

/-- A handle is unbound, and the owner it was is left over. -/
theorem Owned.unbind (hw : w.Owned refs) (hf : w.find? h = some n) : (w.unbind h).Owned fun m => refs m + one n m := by
  refine ⟨fun m => ?_, hw.keys.sublist (List.filter_sublist.map _), hw.once⟩
  have hcount := hw.count m
  have hleft := countP_filter_lookup hw.keys h m
  rw [show w.handles.lookup h = some n from hf, Option.elim_some] at hleft
  change (w.owners? m).getD 0 = (w.handles.filter fun b => b.1 ≠ h).countP (fun b => b.2 = m) + (refs m + one n m)
  rw [hcount, boundTo, ← hleft]
  omega

theorem owners?_create (w : World α) (m : CellId) :
    w.create.2.owners? m = if w.cells.length = m then some 1 else w.owners? m := by
  change ((w.cells ++ [Cell.fresh])[m]?).map Cell.owners = _
  rw [List.getElem?_append]
  by_cases hm : m < w.cells.length
  · rw [if_pos hm, if_neg (Nat.ne_of_gt hm)]
    rfl
  · rw [if_neg hm]
    by_cases heq : w.cells.length = m
    · rw [if_pos heq, heq, Nat.sub_self]
      rfl
    · have hlt : w.cells.length < m := Nat.lt_of_le_of_ne (Nat.le_of_not_lt hm) heq
      rw [if_neg heq, owners?, List.getElem?_eq_none (Nat.le_of_lt hlt), List.getElem?_eq_none]
      simp only [List.length_singleton]
      omega

/-- A fresh cell has one owner, which is still to be a handle. -/
theorem Owned.create (hw : w.Owned refs) : w.create.2.Owned fun m => refs m + one w.cells.length m := by
  have hmissing : w.owners? w.cells.length = none := by
    rw [owners?, List.getElem?_eq_none (Nat.le_refl _)]
    rfl
  refine ⟨fun m => ?_, hw.keys, fun m => ?_⟩
  · have hcount := hw.count m
    rw [owners?_create]
    simp only [one]
    by_cases hm : w.cells.length = m
    · rw [if_pos hm, if_pos hm, Option.getD_some]
      rw [← hm, hmissing, Option.getD_none, hm] at hcount
      change 1 = w.boundTo m + (refs m + 1)
      omega
    · rw [if_neg hm, if_neg hm]
      exact hcount
  · have honce := hw.once m
    rw [owners?_create]
    change w.journal.countP (Entry.closes m) + 0 = _
    by_cases hm : w.cells.length = m
    · rw [← hm, hmissing] at honce
      rw [if_pos hm, ← hm]
      exact honce
    · rw [if_neg hm]
      exact honce

end World

namespace Config

/-- The owners of every cell are the handles, the calls of the stack, and what others hold. -/
def Counted (out : CellId → Nat) (c : Config α) : Prop :=
  c.world.Owned fun m => (stakesAt m c.thread c.stack).length + out m

variable {c d : Config α} {out : CellId → Nat} {n m : CellId} {cell cell' : Cell α} {id : SlotId} {x : Outcome α}
  {next : Outcome α → Program α} {s : Scope α} {h : Handle} {p : Program α}

/-- The world of another configuration, with the same stack, and what is owned besides. -/
theorem counted_of_owned {refs : CellId → Nat} (thread : d.thread = c.thread) (stack : d.stack = c.stack)
    (hd : d.world.Owned fun m => (stakesAt m c.thread c.stack).length + out m + refs m) :
    d.Counted fun m => out m + refs m := by
  unfold Counted
  rw [thread, stack]
  exact hd.of_refs fun m => (Nat.add_assoc _ _ _).symm

/-- User code begins to run in a call, which takes over what was owned. -/
theorem Counted.push (hc : c.Counted fun m => out m + s.refs m) {control : Control α} :
    Counted out { c with control := control, stack := .call s next :: c.stack } := by
  refine World.Owned.of_refs hc fun m => ?_
  rw [length_stakesAt_call]
  simp only
  omega

/-- A call goes on, and what it owned is left over. -/
theorem Counted.pop {stack : List (Frame α)} (hc : c.Counted out) (top : c.stack = .call s next :: stack) :
    Counted (fun m => out m + s.refs m) { c with stack := stack } := by
  refine World.Owned.of_refs hc fun m => ?_
  rw [top, length_stakesAt_call]
  simp only
  omega

theorem Counted.put (hc : c.Counted out) (hn : c.world.cells[n]? = some cell) (ho : cell'.owners = cell.owners) :
    (c.put n cell').Counted out := World.Owned.put hc hn ho

theorem Counted.addOwner (hc : c.Counted out) (hn : c.world.cells[n]? = some cell) (alive : cell.owners ≠ 0)
    (ho : cell'.owners = cell.owners + 1) : (c.put n cell').Counted fun m => out m + one n m :=
  counted_of_owned rfl rfl (World.Owned.addOwner hc hn alive ho)

theorem Counted.emit (hc : c.Counted out) {e : Event} {lock : Lock} : (c.emit e n lock).Counted out :=
  World.Owned.emit hc

theorem Counted.handOver (hc : c.Counted out) (v : Value α (Program α)) :
    Counted out { c with world := (c.world.handOver v n id).2 } := by
  refine World.Owned.same hc (fun m => rfl) rfl fun m => ?_
  change List.countP (Entry.closes m) (.handed c.world.handed n id :: c.world.journal) = _
  rw [List.countP_cons]
  rfl

/-- The code that destroys a value runs in a call. -/
theorem Counted.destroy {v : Stored α} (hc : c.Counted fun m => out m + s.refs m) : (c.destroy v s next).Counted out :=
  Counted.push (c := c.log (.destroyed v.serial)) (World.Owned.log hc fun _ => rfl)

/-! ### Letting go -/

theorem Counted.exists_cell (hc : c.Counted fun m => out m + one n m) :
    ∃ cell, c.world.cells[n]? = some cell ∧ cell.owners ≠ 0 :=
  World.Owned.exists_cell (World.Owned.of_refs hc fun _ => Nat.add_assoc _ _ _)

theorem counted_letGo (hc : c.Counted fun m => out m + one n m) : (c.letGo n x next).Counted out := by
  have howned : c.world.Owned fun m => (stakesAt m c.thread c.stack).length + out m + one n m :=
    World.Owned.of_refs hc fun _ => Nat.add_assoc _ _ _
  obtain ⟨cell, hn, -⟩ := hc.exists_cell
  unfold letGo
  rw [hn]
  simp only
  split
  · exact howned.close hn ‹_›
  · exact howned.dropOwner hn ‹_›

theorem counted_endReading (hc : c.Counted fun m => out m + one n m) : (c.endReading n x next).Counted out := by
  obtain ⟨cell, hn, -⟩ := hc.exists_cell
  unfold endReading
  rw [hn]
  exact counted_letGo (hc.put hn rfl)

theorem counted_endWriting (hc : c.Counted fun m => out m + one n m) : (c.endWriting n x next).Counted out := by
  obtain ⟨cell, hn, -⟩ := hc.exists_cell
  unfold endWriting
  rw [hn]
  exact counted_letGo (hc.put hn rfl)

theorem counted_walkOn {visit : Array (Visit α) → SlotId → Option α → Program α} {visits : Array (Visit α)}
    {ahead : List SlotId} (hc : c.Counted fun m => out m + one n m) :
    (c.walkOn n visit visits ahead next).Counted out := by
  unfold walkOn
  split
  · exact counted_endReading hc
  · exact Counted.push (s := .walking _ _ _ _ _ _) hc

/-- **A call that goes on keeps the count,** unless user code breaks off while another message is on its way. -/
theorem counted_resume {v : Verdict} {report : Option (List (Answer α))} (hc : c.Counted fun m => out m + s.refs m)
    (hd : (c.resume s next v report).control ≠ .aborted) : (c.resume s next v report).Counted out := by
  cases s with
  | walking n visit visits id value ahead =>
    cases v with
    | goOn => exact counted_walkOn hc
    | stop => exact counted_endReading hc
    | raise message => exact counted_endReading hc
  | copying n payload => cases v <;> exact counted_endReading hc
  | rejecting n why => cases v <;> exact counted_endWriting hc
  | bouncing n =>
    cases v with
    | goOn => exact counted_letGo hc
    | stop => exact counted_letGo hc
    | raise message => exact absurd rfl hd
  | discarding n => cases v <;> exact counted_letGo hc
  | tearing n ahead x =>
    cases v with
    | goOn => cases x <;> exact hc
    | stop => cases x <;> exact hc
    | raise message => cases x <;> exact hc
  | disposing => cases v <;> exact hc

/-! ### Calls on a cell -/

section Calls

variable (hc : c.Counted out) (hn : c.world.cells[n]? = some cell)
include hc hn

theorem counted_reserve : (c.reserve n cell next).Counted out := by
  by_cases hin : c.thread ∈ cell.detector.inside
  · rw [reserve, writing_of_inside hin]
    exact hc
  by_cases hl : cell.lock = .free
  · cases hr : cell.registry.reserve with
    | ok p =>
      rw [reserve_of_ok hin hl hr]
      exact hc.emit.put ((congrArg (·[n]?) cells_emit).trans hn) rfl
    | error why =>
      rw [reserve_of_error hin hl hr]
      exact hc.emit.put ((congrArg (·[n]?) cells_emit).trans hn) rfl
  · rw [reserve, writing_of_held hin hl]
    exact hc

theorem counted_store {v : Value α (Program α)}
    {bind : Registry (Stored α) → SlotId → Stored α → Except Refusal (Registry (Stored α))} {event : Event}
    (alive : cell.owners ≠ 0) : (c.store n cell id v bind event x next).Counted out := by
  have hover : Counted out { c with world := (c.world.handOver v n id).2 } := hc.handOver v
  by_cases hin : c.thread ∈ cell.detector.inside
  · rw [store_of_inside hin]
    exact Counted.destroy (s := .bouncing n) (hover.addOwner hn alive rfl)
  by_cases hl : cell.lock = .free
  · cases hr : bind cell.registry id ⟨c.world.handed, v⟩ with
    | ok r =>
      rw [store_of_ok hin hl hr]
      exact hover.emit.put ((congrArg (·[n]?) cells_emit).trans hn) rfl
    | error why =>
      rw [store_of_error hin hl hr]
      exact Counted.destroy (s := .rejecting n why) (hover.addOwner hn alive rfl)
  · rw [store_of_held hin hl]
    exact hover

theorem counted_pop : (c.pop n cell id next).Counted out := by
  by_cases hin : c.thread ∈ cell.detector.inside
  · rw [pop, writing_of_inside hin]
    exact hc
  by_cases hl : cell.lock = .free
  · cases hr : cell.registry.take id with
    | ok p =>
      rw [pop_of_ok hin hl hr]
      have hput : ((c.emit (.popped id) n .free).put n (cell.withRegistry p.2)).Counted out :=
        hc.emit.put ((congrArg (·[n]?) cells_emit).trans hn) rfl
      refine World.Owned.same hput (fun m => rfl) rfl fun m => ?_
      change List.countP (Entry.closes m) (.returned p.1.serial :: _) = _
      rw [List.countP_cons]
      rfl
    | error why =>
      rw [pop_of_error hin hl hr]
      exact hc.put hn rfl
  · rw [pop, writing_of_held hin hl]
    exact hc

theorem counted_query {answer : Registry (Stored α) → Outcome α} : (c.query n cell answer next).Counted out := by
  rcases reading_cases c cell (c.refuseEntry next) _ with ⟨-, h⟩ | ⟨-, -, h⟩ | ⟨hin, readers, hl, -⟩
  · rw [query, h]
    exact hc
  · rw [query, h]
    exact hc
  · rw [query_of_shared hin hl]
    exact hc.put hn rfl

theorem counted_get (alive : cell.owners ≠ 0) : (c.get n cell id next).Counted out := by
  rcases reading_cases c cell (c.refuseEntry next) _ with ⟨-, h⟩ | ⟨-, -, h⟩ | ⟨hin, readers, hl, -⟩
  · rw [get, h]
    exact hc
  · rw [get, h]
    exact hc
  · cases hr : cell.registry.get? id with
    | none =>
      rw [get_of_none hin hl hr]
      exact hc.put hn rfl
    | some v =>
      rw [get_of_some hin hl hr]
      exact Counted.push (s := .copying n v.value.payload) (hc.addOwner hn alive rfl)

theorem counted_walk {visit : Array (Visit α) → SlotId → Option α → Program α} (alive : cell.owners ≠ 0) :
    (c.walk n cell visit next).Counted out := by
  rcases reading_cases c cell (c.refuseEntry next) _ with ⟨-, h⟩ | ⟨-, -, h⟩ | ⟨hin, readers, hl, -⟩
  · rw [walk, h]
    exact hc
  · rw [walk, h]
    exact hc
  · rw [walk_of_shared hin hl]
    exact counted_walkOn (hc.addOwner hn alive rfl)

end Calls

theorem counted_release {ticket : Ticket} (hc : c.Counted out) : (c.release ticket next).Counted out := by
  cases hn : c.world.cells[ticket.cell]? with
  | none =>
    rw [release_of_missing hn]
    exact hc
  | some cell =>
    by_cases ho : cell.owners = 0
    · rw [release_of_dead hn ho]
      exact hc
    by_cases hin : c.thread ∈ cell.detector.inside
    · rw [release_of_inside hn ho hin]
      exact hc
    by_cases hl : cell.lock = .free
    · by_cases hs : ∃ v, cell.registry.slot? ticket.id = some (.occupied v)
      · obtain ⟨v, hs⟩ := hs
        rw [release_of_occupied hn ho hin hl hs]
        exact Counted.destroy (s := .discarding ticket.cell)
          (hc.emit.addOwner ((congrArg (·[ticket.cell]?) cells_emit).trans hn) ho rfl)
      · rw [release_of_not_occupied hn ho hin hl fun v hv => hs ⟨v, hv⟩]
        exact hc.emit.put ((congrArg (·[ticket.cell]?) cells_emit).trans hn) rfl
    · rw [release_of_held hn ho hin hl]
      exact hc

theorem counted_dispose {serial : Nat} (hc : c.Counted out) : (c.dispose serial next).Counted out := by
  unfold dispose
  split
  · exact hc
  · exact Counted.push (c := { c with world := c.world.forget serial }) (s := .disposing)
      (World.Owned.same hc (fun m => rfl) rfl fun m => rfl)

/-! ### Calls about handles -/

theorem counted_rebind (hc : c.Counted fun m => out m + one n m) : (c.rebind h n x next).Counted out := by
  have hbind : Counted (fun m => out m + (c.world.find? h).elim 0 (one · m)) { c with world := c.world.bind h n } :=
    counted_of_owned rfl rfl (World.Owned.bind (World.Owned.of_refs hc fun _ => Nat.add_assoc _ _ _) h)
  unfold rebind
  dsimp only
  cases hf : c.world.find? h with
  | none =>
    rw [hf] at hbind
    exact hbind
  | some m =>
    rw [hf] at hbind
    exact counted_letGo hbind

theorem counted_create (hc : c.Counted out) : (c.create h next).Counted out := by
  have hcreate : Counted (fun m => out m + one c.world.cells.length m) { c with world := c.world.create.2 } :=
    counted_of_owned rfl rfl (World.Owned.create hc)
  exact counted_rebind hcreate

theorem counted_share (hc : c.Counted out) (hn : c.world.cells[n]? = some cell) (alive : cell.owners ≠ 0) :
    ((c.put n cell.addOwner).rebind h n x next).Counted out := counted_rebind (hc.addOwner hn alive rfl)

theorem counted_hold (hc : c.Counted out) (hn : c.world.cells[n]? = some cell) (alive : cell.owners ≠ 0) :
    (c.hold n cell next).Counted out := by
  have hheld : Counted out { c with world := { c.world with held := c.world.held + 1 } } :=
    World.Owned.same hc (fun m => rfl) rfl fun m => rfl
  exact counted_rebind (hheld.addOwner hn alive rfl)

theorem counted_giveUp (hc : c.Counted out) (hf : c.world.find? h = some n) : (c.giveUp h n next).Counted out := by
  have hunbind : Counted (fun m => out m + one n m) { c with world := c.world.unbind h } :=
    counted_of_owned rfl rfl (World.Owned.unbind hc hf)
  exact counted_letGo hunbind

/-! ### The step -/

theorem counted_withCell {act : CellId → Cell α → Config α} (hc : c.Counted out)
    (hact : ∀ n cell, c.world.find? h = some n → c.world.cells[n]? = some cell → cell.owners ≠ 0 →
      (act n cell).Counted out) : (c.withCell h next act).Counted out := by
  unfold withCell
  split
  · exact hc
  · rename_i n cell hw
    obtain ⟨hf, hn⟩ := cellOf?_eq_some hw
    exact hact n cell hf hn (World.Owned.owners_ne_zero hc hf hn)

theorem counted_perform (hc : c.Counted out) (call : Call α (Program α)) : (c.perform next call).Counted out := by
  cases call with
  | create h => exact counted_create hc
  | share source target => exact counted_withCell hc fun n cell _ hn alive => counted_share hc hn alive
  | hold h => exact counted_withCell hc fun n cell _ hn alive => counted_hold hc hn alive
  | giveUp h => exact counted_withCell hc fun n cell hf _ _ => counted_giveUp hc hf
  | inspect h => exact counted_withCell hc fun n cell _ _ _ => hc
  | reserve h => exact counted_withCell hc fun n cell _ hn _ => counted_reserve hc hn
  | add h id v => exact counted_withCell hc fun n cell _ hn alive => counted_store hc hn alive
  | set h id v => exact counted_withCell hc fun n cell _ hn alive => counted_store hc hn alive
  | pop h id => exact counted_withCell hc fun n cell _ hn _ => counted_pop hc hn
  | get h id => exact counted_withCell hc fun n cell _ hn alive => counted_get hc hn alive
  | contains h id => exact counted_withCell hc fun n cell _ hn _ => counted_query hc hn
  | size h => exact counted_withCell hc fun n cell _ hn _ => counted_query hc hn
  | isEmpty h => exact counted_withCell hc fun n cell _ hn _ => counted_query hc hn
  | cursor h => exact counted_withCell hc fun n cell _ hn _ => counted_query hc hn
  | walk h visit => exact counted_withCell hc fun n cell _ hn alive => counted_walk hc hn alive
  | release ticket => exact counted_release hc
  | dispose serial => exact counted_dispose hc
  | shelve ticket => exact World.Owned.same hc (fun m => rfl) rfl fun m => rfl
  | shelved number => exact hc
  | unshelve number => exact World.Owned.same hc (fun m => rfl) rfl fun m => rfl

theorem counted_tearOn {ahead : List SlotId} (hc : c.Counted out) : (c.tearOn n ahead x next).Counted out := by
  unfold tearOn
  split
  · rename_i id ahead cell hn
    have hput : (c.put n (cell.withRegistry (cell.registry.remove id))).Counted out := hc.put hn rfl
    dsimp only
    split
    · exact Counted.destroy (s := .tearing n ahead x) hput
    · exact hput
  · exact hc

/-- **A step keeps the count,** unless user code breaks off while another message is on its way. -/
theorem step_counted (hc : c.Counted out) (hd : c.step.control ≠ .aborted) : c.step.Counted out := by
  unfold step at hd ⊢
  split
  · exact counted_perform hc _
  · exact World.Owned.log hc fun _ => rfl
  · exact World.Owned.same hc (fun m => rfl) rfl fun m => rfl
  · rename_i v report hcontrol
    rw [hcontrol] at hd
    split
    · exact hc
    · rename_i s next stack hstack
      rw [hstack] at hd
      exact counted_resume (hc.pop hstack) hd
    · rename_i u next stack hstack
      unfold Counted at hc
      rw [hstack] at hc
      exact hc
  · exact hc
  · exact counted_tearOn hc
  · exact hc
  · exact hc

end Config

end SlotRegistry
