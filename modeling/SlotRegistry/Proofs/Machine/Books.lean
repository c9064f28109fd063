import SlotRegistry.Proofs.Machine.Moves
/-!
# Books — detectors, locks and owners agree with the unfinished calls

On every ledger the machine can come to, the threads in a detector, the holders of a lock and the owners of a cell are
those that the unfinished calls account for (`Sound`).  With one stack of calls the lists agree as they stand; when the
calls of several threads take turns they agree up to order.  So agreement is taken in any relation that pushing and
erasing keep (`Tracks`).
-/
namespace SlotRegistry

variable {α : Type}

/-- A relation between a list kept by pushing and erasing, and the list it stands for. -/
structure Tracks (R : List Thread → List Thread → Prop) : Prop where
  nil : R [] []
  push : ∀ {l k : List Thread} {t : Thread}, R l k → R (t :: l) (t :: k)
  erase : ∀ {l k : List Thread} {t : Thread}, R l (t :: k) → R (l.erase t) k
  mem_iff : ∀ {l k : List Thread}, R l k → ∀ t, t ∈ l ↔ t ∈ k

theorem tracks_eq : Tracks Eq where
  nil := rfl
  push h := by rw [h]
  erase h := by rw [h, List.erase_cons_head]
  mem_iff h t := by rw [h]

theorem tracks_perm : Tracks List.Perm where
  nil := .nil
  push h := h.cons _
  erase {l k t} h := by simpa using h.erase t
  mem_iff h _ := h.mem_iff

namespace Lock

def readers : Lock → List Thread
  | shared rs => rs
  | exclusive _ => []

def writers : Lock → List Thread
  | shared _ => []
  | exclusive w => [w]

/-- A lock is known from who holds it. -/
theorem ext_holders : ∀ {l l' : Lock}, l.readers = l'.readers → l.writers = l'.writers → l = l'
  | shared rs, shared rs', h, _ => by rw [show rs = rs' from h]
  | shared _, exclusive _, _, h => by cases h
  | exclusive _, shared _, _, h => by cases h
  | exclusive w, exclusive w', _, h => by cases h; rfl

end Lock

namespace Cell

/-- Detector, lock and owners of a cell agree with what is held of it, besides the handles bound to it. -/
structure Tallies (R : List Thread → List Thread → Prop) (cell : Cell α) (bound : Nat)
    (stakes : List (Thread × Stake)) : Prop where
  inside : R cell.detector.inside (entered stakes)
  readers : R cell.lock.readers (holding .reading stakes)
  writers : R cell.lock.writers (holding .writing stakes)
  owners : bound + stakes.length ≤ cell.owners

/-- What stands for a cell that is not there: nobody is inside, and nobody owns it. -/
def void : Cell α := ⟨.empty, .free, .empty, 0⟩

section Tallies

variable {R : List Thread → List Thread → Prop} {cell : Cell α} {bound : Nat} {stakes : List (Thread × Stake)}
  {t : Thread}

theorem Tallies.withRegistry (h : cell.Tallies R bound stakes) (r : Registry (Stored α)) :
    (cell.withRegistry r).Tallies R bound stakes := ⟨h.inside, h.readers, h.writers, h.owners⟩

theorem Tallies.addOwner (h : cell.Tallies R bound stakes) :
    cell.addOwner.Tallies R bound ((t, .owning) :: stakes) := by
  refine ⟨?_, ?_, ?_, ?_⟩
  · rw [entered_owning]; exact h.inside
  · rw [holding_cons_of_ne (by decide)]; exact h.readers
  · rw [holding_cons_of_ne (by decide)]; exact h.writers
  · have := h.owners
    simp only [Cell.addOwner, List.length_cons]
    omega

theorem Tallies.beginReading (hR : Tracks R) (h : cell.Tallies R bound stakes) {readers : List Thread}
    (hl : cell.lock = .shared readers) :
    (cell.heldForReading t readers).addOwner.Tallies R bound ((t, .reading) :: stakes) := by
  refine ⟨?_, ?_, ?_, ?_⟩
  · rw [entered_cons (by decide)]
    exact hR.push h.inside
  · have hr := h.readers
    rw [hl] at hr
    rw [holding_cons_self]
    exact hR.push hr
  · have hw := h.writers
    rw [hl] at hw
    rw [holding_cons_of_ne (by decide)]
    exact hw
  · have := h.owners
    simp only [Cell.addOwner, heldForReading, List.length_cons]
    omega

theorem Tallies.beginWriting (hR : Tracks R) (h : cell.Tallies R bound stakes) (hl : cell.lock = .free) :
    (cell.heldForWriting t).addOwner.Tallies R bound ((t, .writing) :: stakes) := by
  refine ⟨?_, ?_, ?_, ?_⟩
  · rw [entered_cons (by decide)]
    exact hR.push h.inside
  · have hr := h.readers
    rw [hl] at hr
    rw [holding_cons_of_ne (by decide)]
    exact hr
  · have hw := h.writers
    rw [hl] at hw
    rw [holding_cons_self]
    exact hR.push hw
  · have := h.owners
    simp only [Cell.addOwner, heldForWriting, List.length_cons]
    omega

theorem Tallies.endReading (hR : Tracks R) (h : cell.Tallies R bound ((t, .reading) :: stakes)) :
    ((cell.endRead t).leave t).Tallies R bound ((t, .owning) :: stakes) := by
  refine ⟨?_, ?_, ?_, ?_⟩
  · have hi := h.inside
    rw [entered_cons (by decide)] at hi
    rw [entered_owning]
    exact hR.erase hi
  · have hr := h.readers
    rw [holding_cons_self] at hr
    rw [holding_cons_of_ne (by decide)]
    have he := hR.erase hr
    simp only [leave, endRead]
    cases hl : cell.lock with
    | shared rs => rw [hl] at he; exact he
    | exclusive w => rw [hl] at he; exact he
  · have hw := h.writers
    rw [holding_cons_of_ne (by decide)] at hw
    rw [holding_cons_of_ne (by decide)]
    simp only [leave, endRead]
    cases hl : cell.lock with
    | shared rs => rw [hl] at hw; exact hw
    | exclusive w => rw [hl] at hw; exact hw
  · exact h.owners

theorem Tallies.endWriting (hR : Tracks R) (h : cell.Tallies R bound ((t, .writing) :: stakes)) :
    (cell.endWrite.leave t).Tallies R bound ((t, .owning) :: stakes) := by
  have hr := h.readers
  rw [holding_cons_of_ne (by decide)] at hr
  have hw := h.writers
  rw [holding_cons_self] at hw
  have ht : t ∈ cell.lock.writers := (hR.mem_iff hw t).2 List.mem_cons_self
  -- the thread that gives up the lock is the one that holds it
  obtain ⟨w, hl⟩ : ∃ w, cell.lock = .exclusive w := by
    cases hl : cell.lock with
    | shared rs => rw [hl] at ht; cases ht
    | exclusive w => exact ⟨w, rfl⟩
  rw [hl] at hr hw ht
  obtain rfl : t = w := by simpa [Lock.writers] using ht
  have he := hR.erase hw
  simp only [Lock.writers, List.erase_cons_head] at he
  refine ⟨?_, ?_, ?_, ?_⟩
  · have hi := h.inside
    rw [entered_cons (by decide)] at hi
    rw [entered_owning]
    exact hR.erase hi
  · rw [holding_cons_of_ne (by decide)]
    simp only [leave, endWrite, hl]
    exact hr
  · rw [holding_cons_of_ne (by decide)]
    simp only [leave, endWrite, hl]
    exact he
  · exact h.owners

/-- Without one owner and what it held, the rest agrees. -/
theorem Tallies.letGo (h : cell.Tallies R bound ((t, .owning) :: stakes)) {k : Nat} (hk : k = cell.owners - 1) :
    { cell with owners := k }.Tallies R bound stakes := by
  refine ⟨by simpa using h.inside, by simpa [holding_cons_of_ne] using h.readers,
    by simpa [holding_cons_of_ne] using h.writers, ?_⟩
  have := h.owners
  simp only [List.length_cons] at this
  simp only [hk]
  omega

/-- Owners can be accounted for by handles or by what is held, whatever the split. -/
theorem Tallies.shift (h : cell.Tallies R bound stakes) {bound' : Nat} {stakes' : List (Thread × Stake)}
    (entered_eq : entered stakes' = entered stakes)
    (holding_eq : ∀ way ≠ .owning, holding way stakes' = holding way stakes)
    (le : bound' + stakes'.length ≤ bound + stakes.length) : cell.Tallies R bound' stakes' := by
  have := h.owners
  refine ⟨?_, ?_, ?_, by omega⟩
  · rw [entered_eq]; exact h.inside
  · rw [holding_eq _ (by decide)]; exact h.readers
  · rw [holding_eq _ (by decide)]; exact h.writers

theorem Tallies.owe (h : cell.Tallies R bound stakes) {bound' : Nat} (le : bound' + 1 ≤ bound) :
    cell.Tallies R bound' ((t, .owning) :: stakes) :=
  h.shift entered_owning (fun _ hw => holding_cons_of_ne hw.symm) (by simp only [List.length_cons]; omega)

theorem Tallies.settle (h : cell.Tallies R bound ((t, .owning) :: stakes)) {bound' : Nat} (le : bound' ≤ bound + 1) :
    cell.Tallies R bound' stakes :=
  h.shift entered_owning.symm (fun _ hw => (holding_cons_of_ne hw.symm).symm) (by simp only [List.length_cons]; omega)

theorem Tallies.of_le (h : cell.Tallies R bound stakes) {bound' : Nat} (le : bound' ≤ bound) :
    cell.Tallies R bound' stakes := h.shift rfl (fun _ _ => rfl) (by omega)

end Tallies

end Cell

namespace Ledger

/-- The cell of a number, or what stands for it. -/
def cellAt (L : Ledger α) (n : CellId) : Cell α := (L.cells[n]?).getD Cell.void

/-- How many handles belong to a cell. -/
def boundTo (L : Ledger α) (n : CellId) : Nat := L.handles.countP (fun b => b.2 = n)

/-- The cell has lost its last owner. -/
def Dead (L : Ledger α) (n : CellId) : Prop := ∃ cell, L.cells[n]? = some cell ∧ cell.owners = 0

/-- **The accounts are in order**, where `out` is what the calls of other threads hold: every cell agrees with what is
held of it, and a cell that is being cleared is dead. -/
structure Sound (R : List Thread → List Thread → Prop) (out : CellId → List (Thread × Stake)) (L : Ledger α) : Prop where
  tallies : ∀ n, (L.cellAt n).Tallies R (L.boundTo n) (stakesAt n L.thread L.stack ++ out n)
  torn : ∀ n, L.torn = some n → L.Dead n
  clearing : ∀ t n ahead x, (t, Scope.tearing n ahead x) ∈ unfinished L.thread L.stack → L.Dead n

section

variable {R : List Thread → List Thread → Prop} {out : CellId → List (Thread × Stake)} {L K : Ledger α}
  {n m : CellId} {cell cell' : Cell α}

theorem cellAt_of_getElem? (h : L.cells[n]? = some cell) : L.cellAt n = cell := by rw [cellAt, h]; rfl

theorem getElem?_set_cells (h : L.cells[n]? = some cell) (m : CellId) :
    (L.cells.set n cell')[m]? = if n = m then some cell' else L.cells[m]? := by
  have hn := (List.getElem?_eq_some_iff.1 h).1
  rw [List.getElem?_set]
  by_cases hnm : n = m
  · subst hnm; simp [hn]
  · simp [hnm]

/-- Where there is neither a cell nor a call, the accounts are in order. -/
theorem sound_of_nil (hR : Tracks R) (cells : L.cells = []) (handles : L.handles = []) (stack : L.stack = [])
    (torn : L.torn = none) : Sound R (fun _ => []) L := by
  refine ⟨fun n => ?_, fun n ht => ?_, fun t n ahead x hmem => ?_⟩
  · rw [cellAt, cells, boundTo, handles, stack]
    exact ⟨hR.nil, hR.nil, hR.nil, Nat.le_refl 0⟩
  · rw [torn] at ht
    cases ht
  · rw [stack] at hmem
    cases hmem

theorem Sound.tallies_set (hL : Sound R out L) (found : L.cells[n]? = some cell)
    (cells : K.cells = L.cells.set n cell') (handles : K.handles = L.handles)
    (here : cell.Tallies R (L.boundTo n) (stakesAt n L.thread L.stack ++ out n) →
      cell'.Tallies R (L.boundTo n) (stakesAt n K.thread K.stack ++ out n))
    (elsewhere : ∀ m, n ≠ m → stakesAt m K.thread K.stack = stakesAt m L.thread L.stack) (m : CellId) :
    (K.cellAt m).Tallies R (K.boundTo m) (stakesAt m K.thread K.stack ++ out m) := by
  have hb : K.boundTo m = L.boundTo m := by rw [boundTo, handles]; rfl
  rw [hb]
  by_cases hnm : n = m
  · subst hnm
    have hc : K.cellAt n = cell' := by rw [cellAt, cells, getElem?_set_cells found, if_pos rfl]; rfl
    have hn := hL.tallies n
    rw [cellAt_of_getElem? found] at hn
    rw [hc]
    exact here hn
  · have hc : K.cellAt m = L.cellAt m := by rw [cellAt, cells, getElem?_set_cells found, if_neg hnm]; rfl
    rw [hc, elsewhere m hnm]
    exact hL.tallies m

theorem Sound.tallies_same (hL : Sound R out L) (cells : K.cells = L.cells) (handles : K.handles = L.handles)
    (here : (L.cellAt n).Tallies R (L.boundTo n) (stakesAt n L.thread L.stack ++ out n) →
      (L.cellAt n).Tallies R (L.boundTo n) (stakesAt n K.thread K.stack ++ out n))
    (elsewhere : ∀ m, n ≠ m → stakesAt m K.thread K.stack = stakesAt m L.thread L.stack) (m : CellId) :
    (K.cellAt m).Tallies R (K.boundTo m) (stakesAt m K.thread K.stack ++ out m) := by
  have hb : K.boundTo m = L.boundTo m := by rw [boundTo, handles]; rfl
  have hc : K.cellAt m = L.cellAt m := by rw [cellAt, cells]; rfl
  rw [hb, hc]
  by_cases hnm : n = m
  · subst hnm; exact here (hL.tallies n)
  · rw [elsewhere m hnm]; exact hL.tallies m

/-- A cell in use has owners. -/
theorem Sound.owners_ne_zero_of_inUse (hL : Sound R out L) (found : L.cells[n]? = some cell) (used : L.InUse n cell) :
    cell.owners ≠ 0 := by
  rcases used with ⟨h, hmem⟩ | ho
  · have hn := (hL.tallies n).owners
    rw [cellAt_of_getElem? found] at hn
    have hpos : 0 < L.boundTo n := List.countP_pos_iff.2 ⟨(h, n), hmem, by simp⟩
    omega
  · exact ho

/-- A cell of which something is held is there, and has owners. -/
theorem Sound.owners_pos_of_mem (hL : Sound R out L) {k : Thread × Stake}
    (hk : k ∈ stakesAt n L.thread L.stack ++ out n) : ∃ cell, L.cells[n]? = some cell ∧ 0 < cell.owners := by
  have hn := (hL.tallies n).owners
  have hpos := List.length_pos_of_mem hk
  cases hc : L.cells[n]? with
  | none =>
    have : (L.cellAt n).owners = 0 := by rw [cellAt, hc]; rfl
    omega
  | some cell =>
    rw [cellAt_of_getElem? hc] at hn
    exact ⟨cell, rfl, by omega⟩

theorem Dead.of_cells (h : L.Dead n) (cells : K.cells = L.cells) : K.Dead n := by
  obtain ⟨cell, hc, ho⟩ := h
  exact ⟨cell, by rw [cells]; exact hc, ho⟩

theorem Dead.set (h : L.Dead m) (found : L.cells[n]? = some cell) (cells : K.cells = L.cells.set n cell')
    (ho : cell.owners = 0 → cell'.owners = 0) : K.Dead m := by
  obtain ⟨other, hc, ho'⟩ := h
  by_cases hnm : n = m
  · subst hnm
    rw [found] at hc
    cases hc
    exact ⟨cell', by rw [cells, getElem?_set_cells found, if_pos rfl], ho ho'⟩
  · exact ⟨other, by rw [cells, getElem?_set_cells found, if_neg hnm]; exact hc, ho'⟩

/-- **A dead cell stays dead.** -/
theorem Move.dead (h : Move L K) (hL : Sound R out L) (hd : L.Dead m) : K.Dead m := by
  cases h with
  | still => exact hd.of_cells rfl
  | update r found free => exact hd.set found rfl id
  | beginReading next found outside lock used stake =>
    exact hd.set found rfl fun ho => absurd ho (hL.owners_ne_zero_of_inUse found used)
  | beginWriting next found outside free used stake =>
    exact hd.set found rfl fun ho => absurd ho (hL.owners_ne_zero_of_inUse found used)
  | bounce next found inside used =>
    exact hd.set found rfl fun ho => absurd ho (hL.owners_ne_zero_of_inUse found used)
  | own next found used => exact hd.set found rfl fun ho => absurd ho (hL.owners_ne_zero_of_inUse found used)
  | revisit => exact hd.of_cells rfl
  | endReading next' top stake found => exact hd.set found rfl id
  | endWriting next' top stake found => exact hd.set found rfl id
  | letGo top stake found others => exact hd.set found rfl fun ho => by simp [ho]
  | close top stake found last => exact hd.set found rfl fun _ => rfl
  | forget => exact hd.of_cells rfl
  | lost => exact hd.of_cells rfl
  | dispose => exact hd.of_cells rfl
  | pass => exact hd.of_cells rfl
  | spawn => exact hd.of_cells rfl
  | join => exact hd.of_cells rfl
  | create =>
    obtain ⟨cell, hc, ho⟩ := hd
    exact ⟨cell, by rw [List.getElem?_append_left (List.getElem?_eq_some_iff.1 hc).1]; exact hc, ho⟩
  | bind => exact hd.of_cells rfl
  | unbind => exact hd.of_cells rfl
  | tear r torn found => exact hd.set found rfl id
  | beginTearing => exact hd.of_cells rfl
  | endTearing => exact hd.of_cells rfl

theorem countP_filter_le {h : Handle} : (L.handles.filter (fun b => b.1 ≠ h)).countP (fun b => b.2 = n) ≤ L.boundTo n :=
  List.Sublist.countP_le List.filter_sublist

theorem countP_filter_lt {h : Handle} (hb : L.handles.lookup h = some n) :
    (L.handles.filter (fun b => b.1 ≠ h)).countP (fun b => b.2 = n) + 1 ≤ L.boundTo n := by
  obtain ⟨l₁, l₂, heq, -⟩ := List.lookup_eq_some_iff.1 hb
  have h₁ : (l₁.filter (fun b => decide (b.1 ≠ h))).countP (fun b => b.2 = n) ≤ l₁.countP (fun b => b.2 = n) :=
    List.Sublist.countP_le List.filter_sublist
  have h₂ : (l₂.filter (fun b => decide (b.1 ≠ h))).countP (fun b => b.2 = n) ≤ l₂.countP (fun b => b.2 = n) :=
    List.Sublist.countP_le List.filter_sublist
  rw [boundTo, heq]
  simp only [List.filter_append, List.countP_append, List.filter_cons, List.countP_cons]
  simp only [ne_eq, not_true_eq_false, decide_false, Bool.false_eq_true, if_false, decide_true, if_true]
  simp only [ne_eq] at h₁ h₂
  omega

theorem cellAt_create (L : Ledger α) (m : CellId) :
    ({ L with cells := L.cells ++ [Cell.fresh], torn := none } : Ledger α).cellAt m =
      if L.cells.length = m then Cell.fresh else L.cellAt m := by
  rcases Nat.lt_trichotomy m L.cells.length with hm | rfl | hm
  · rw [if_neg (by omega), cellAt, cellAt, List.getElem?_append_left hm]
  · rw [if_pos rfl, cellAt]
    simp
  · rw [if_neg (by omega), cellAt, cellAt, List.getElem?_eq_none (by simp; omega), List.getElem?_eq_none (by omega)]

theorem Sound.tallies_create (hL : Sound R out L) {next : Outcome α → Program α} (m : CellId) :
    (({ L with cells := L.cells ++ [Cell.fresh], torn := none } : Ledger α).cellAt m).Tallies R (L.boundTo m)
      (stakesAt m L.thread (.call (.discarding L.cells.length) next :: L.stack) ++ out m) := by
  have h := hL.tallies m
  rw [cellAt_create]
  by_cases hm : L.cells.length = m
  · rw [cellAt, List.getElem?_eq_none (by omega)] at h
    rw [if_pos hm, stakesAt_call_self (k := .owning) (by rw [← hm]; rfl)]
    exact h.addOwner
  · rw [if_neg hm, stakesAt_call_of_ne rfl hm]
    exact h

theorem Sound.tallies_unbind (hL : Sound R out L) {h : Handle} (bound : L.handles.lookup h = some n)
    {next : Outcome α → Program α} (m : CellId) :
    (L.cellAt m).Tallies R ((L.handles.filter (fun b => b.1 ≠ h)).countP (fun b => b.2 = m))
      (stakesAt m L.thread (.call (.discarding n) next :: L.stack) ++ out m) := by
  by_cases hm : n = m
  · subst hm
    rw [stakesAt_call_self rfl]
    exact (hL.tallies n).owe (countP_filter_lt bound)
  · rw [stakesAt_call_of_ne rfl hm]
    exact (hL.tallies m).of_le countP_filter_le

/-- A handle takes over an owner, and leaves the one it had. -/
theorem Sound.tallies_bind (hL : Sound R out L) {s : Scope α} {next : Outcome α → Program α} {rest : List (Frame α)}
    (h : Handle) (top : L.stack = .call s next :: rest) (stake : s.stake = some (n, .owning)) (m : CellId) :
    (L.cellAt m).Tallies R (((h, n) :: L.handles.filter (fun b => b.1 ≠ h)).countP (fun b => b.2 = m))
      (stakesAt m L.thread (match L.handles.lookup h with
          | none => rest
          | some m => .call (.discarding m) next :: rest) ++ out m) := by
  have hm := hL.tallies m
  have hle : (L.handles.filter (fun b => b.1 ≠ h)).countP (fun b => b.2 = m) ≤ L.boundTo m := countP_filter_le
  have howed : (L.cellAt m).Tallies R (L.boundTo m + if n = m then 1 else 0) (stakesAt m L.thread rest ++ out m) := by
    rw [top] at hm
    by_cases hnm : n = m
    · subst hnm
      rw [stakesAt_call_self stake] at hm
      rw [if_pos rfl]
      exact hm.settle (Nat.le_refl _)
    · rw [stakesAt_call_of_ne stake hnm] at hm
      rw [if_neg hnm]
      exact hm
  rw [List.countP_cons]
  simp only [decide_eq_true_eq]
  cases hf : L.handles.lookup h with
  | none => exact howed.of_le (by omega)
  | some k =>
    by_cases hkm : k = m
    · subst hkm
      rw [stakesAt_call_self rfl]
      have hlt := countP_filter_lt hf
      exact howed.owe (by omega)
    · rw [stakesAt_call_of_ne rfl hkm]
      exact howed.of_le (by omega)

/-- **Moves keep every cell in agreement with what is held of it.** -/
theorem Move.tallies (hR : Tracks R) (h : Move L K) (hL : Sound R out L) (m : CellId) :
    (K.cellAt m).Tallies R (K.boundTo m) (stakesAt m K.thread K.stack ++ out m) := by
  cases h with
  | still => exact hL.tallies m
  | update r found free =>
    exact hL.tallies_set (K := { L with cells := _, torn := none }) found rfl rfl (·.withRegistry r)
      (fun _ _ => rfl) m
  | beginReading next found outside lock used stake =>
    refine hL.tallies_set (K := { L with cells := _, stack := _, torn := none }) found rfl rfl (fun h => ?_)
      (fun _ hm => stakesAt_call_of_ne stake hm) m
    rw [stakesAt_call_self stake]
    exact h.beginReading hR lock
  | beginWriting next found outside free used stake =>
    refine hL.tallies_set (K := { L with cells := _, stack := _, torn := none }) found rfl rfl (fun h => ?_)
      (fun _ hm => stakesAt_call_of_ne stake hm) m
    rw [stakesAt_call_self stake]
    exact h.beginWriting hR free
  | bounce next found inside used =>
    refine hL.tallies_set (K := { L with cells := _, stack := _, torn := none }) found rfl rfl (fun h => ?_)
      (fun _ hm => stakesAt_call_of_ne rfl hm) m
    rw [stakesAt_call_self rfl]
    exact h.addOwner
  | own next found used =>
    refine hL.tallies_set (K := { L with cells := _, stack := _, torn := none }) found rfl rfl (fun h => ?_)
      (fun _ hm => stakesAt_call_of_ne rfl hm) m
    rw [stakesAt_call_self rfl]
    exact h.addOwner
  | revisit next' top stake stake' =>
    rename_i n s s' next rest
    refine hL.tallies_same (n := n) (K := { L with stack := _, torn := none }) rfl rfl (fun h => ?_) (fun _ hm => ?_) m
    · rw [top, stakesAt_call_self stake] at h
      rw [stakesAt_call_self stake']
      exact h
    · rw [top, stakesAt_call_of_ne stake hm]
      exact stakesAt_call_of_ne stake' hm
  | endReading next' top stake found =>
    refine hL.tallies_set (K := { L with cells := _, stack := _, torn := none }) found rfl rfl (fun h => ?_)
      (fun _ hm => ?_) m
    · rw [top, stakesAt_call_self stake] at h
      rw [stakesAt_call_self rfl]
      exact h.endReading hR
    · rw [top, stakesAt_call_of_ne stake hm]
      exact stakesAt_call_of_ne rfl hm
  | endWriting next' top stake found =>
    refine hL.tallies_set (K := { L with cells := _, stack := _, torn := none }) found rfl rfl (fun h => ?_)
      (fun _ hm => ?_) m
    · rw [top, stakesAt_call_self stake] at h
      rw [stakesAt_call_self rfl]
      exact h.endWriting hR
    · rw [top, stakesAt_call_of_ne stake hm]
      exact stakesAt_call_of_ne rfl hm
  | letGo top stake found others =>
    refine hL.tallies_set (K := { L with cells := _, stack := _, torn := none }) found rfl rfl (fun h => ?_)
      (fun _ hm => ?_) m
    · rw [top, stakesAt_call_self stake] at h
      exact h.letGo rfl
    · rw [top, stakesAt_call_of_ne stake hm]
  | close top stake found last =>
    refine hL.tallies_set (K := { L with cells := _, stack := _, torn := some _ }) found rfl rfl (fun h => ?_)
      (fun _ hm => ?_) m
    · rw [top, stakesAt_call_self stake] at h
      exact h.letGo (by rw [last])
    · rw [top, stakesAt_call_of_ne stake hm]
  | forget top stake =>
    rename_i n s next rest
    refine hL.tallies_same (n := n) (K := { L with stack := rest, torn := none }) rfl rfl (fun h => ?_)
      (fun _ hm => ?_) m
    · rw [top, stakesAt_call_self stake] at h
      exact h.settle (by omega)
    · rw [top, stakesAt_call_of_ne stake hm]
  | lost top stake missing =>
    -- a cell of which something is held is there
    obtain ⟨cell, hc, -⟩ := hL.owners_pos_of_mem (by rw [top, stakesAt_call_self stake]; exact List.mem_cons_self)
    rw [missing] at hc
    cases hc
  | dispose next =>
    have h := hL.tallies m
    have hs : stakesAt m L.thread (.call .disposing next :: L.stack) = stakesAt m L.thread L.stack :=
      stakesAt_call_of_none rfl
    rwa [← hs] at h
  | pass top stake =>
    have h := hL.tallies m
    rwa [top, stakesAt_call_of_none stake] at h
  | spawn goOn => exact hL.tallies m
  | join top =>
    have h := hL.tallies m
    rwa [top, stakesAt_join] at h
  | create => exact hL.tallies_create m
  | bind h top stake => exact hL.tallies_bind h top stake m
  | unbind next bound => exact hL.tallies_unbind bound m
  | tear r torn found =>
    exact hL.tallies_set (K := { L with cells := _ }) found rfl rfl (·.withRegistry r) (fun _ _ => rfl) m
  | beginTearing ahead x next torn =>
    rename_i n
    have h := hL.tallies m
    have hs : stakesAt m L.thread (.call (.tearing n ahead x) next :: L.stack) = stakesAt m L.thread L.stack :=
      stakesAt_call_of_none rfl
    rwa [← hs] at h
  | endTearing top =>
    have h := hL.tallies m
    rwa [top, stakesAt_call_of_none rfl] at h

theorem mem_unfinished_of_stake {t u : Thread} {s : Scope α} {next : Outcome α → Program α} {stack : List (Frame α)}
    {ahead : List SlotId} {x : Outcome α} {held : CellId × Stake} (stake : s.stake = some held)
    (h : (u, Scope.tearing n ahead x) ∈ unfinished t (.call s next :: stack)) :
    (u, Scope.tearing n ahead x) ∈ unfinished t stack := by
  rcases List.mem_cons.1 h with heq | hmem
  · cases heq
    cases stake
  · exact hmem

theorem Move.torn (h : Move L K) (hL : Sound R out L) (ht : K.torn = some m) : K.Dead m := by
  cases h with
  | close top stake found last =>
    cases ht
    exact ⟨_, by rw [getElem?_set_cells found, if_pos rfl], rfl⟩
  | tear r torn found => exact (hL.torn m ht).set found rfl id
  | endTearing top =>
    cases ht
    exact (hL.clearing _ _ _ _ (by rw [top]; exact List.mem_cons_self)).of_cells rfl
  | _ => cases ht

/-- The cells being cleared by unfinished calls after a move were being cleared before it. -/
theorem Move.clearing (h : Move L K) (hL : Sound R out L) {t : Thread} {ahead : List SlotId} {x : Outcome α}
    (hmem : (t, Scope.tearing m ahead x) ∈ unfinished K.thread K.stack) : L.Dead m := by
  cases h with
  | still => exact hL.clearing _ _ _ _ hmem
  | update => exact hL.clearing _ _ _ _ hmem
  | beginReading next found outside lock used stake =>
    exact hL.clearing _ _ _ _ (mem_unfinished_of_stake stake hmem)
  | beginWriting next found outside free used stake =>
    exact hL.clearing _ _ _ _ (mem_unfinished_of_stake stake hmem)
  | bounce => exact hL.clearing _ _ _ _ (mem_unfinished_of_stake rfl hmem)
  | own => exact hL.clearing _ _ _ _ (mem_unfinished_of_stake rfl hmem)
  | revisit next' top stake stake' =>
    exact hL.clearing _ _ _ _ (by rw [top]; exact List.mem_cons_of_mem _ (mem_unfinished_of_stake stake' hmem))
  | endReading next' top stake found =>
    exact hL.clearing _ _ _ _ (by rw [top]; exact List.mem_cons_of_mem _ (mem_unfinished_of_stake rfl hmem))
  | endWriting next' top stake found =>
    exact hL.clearing _ _ _ _ (by rw [top]; exact List.mem_cons_of_mem _ (mem_unfinished_of_stake rfl hmem))
  | letGo top => exact hL.clearing _ _ _ _ (by rw [top]; exact List.mem_cons_of_mem _ hmem)
  | close top => exact hL.clearing _ _ _ _ (by rw [top]; exact List.mem_cons_of_mem _ hmem)
  | forget top => exact hL.clearing _ _ _ _ (by rw [top]; exact List.mem_cons_of_mem _ hmem)
  | lost top => exact hL.clearing _ _ _ _ (by rw [top]; exact List.mem_cons_of_mem _ hmem)
  | dispose =>
    rcases List.mem_cons.1 hmem with heq | hmem
    · cases heq
    · exact hL.clearing _ _ _ _ hmem
  | pass top => exact hL.clearing _ _ _ _ (by rw [top]; exact List.mem_cons_of_mem _ hmem)
  | spawn => exact hL.clearing _ _ _ _ hmem
  | join top => exact hL.clearing _ _ _ _ (by rw [top]; exact hmem)
  | create => exact hL.clearing _ _ _ _ (mem_unfinished_of_stake rfl hmem)
  | bind h top stake =>
    rename_i n s next rest
    have hrest : (t, Scope.tearing m ahead x) ∈ unfinished L.thread rest := by
      simp only at hmem
      split at hmem
      · exact hmem
      · exact mem_unfinished_of_stake rfl hmem
    exact hL.clearing _ _ _ _ (by rw [top]; exact List.mem_cons_of_mem _ hrest)
  | unbind => exact hL.clearing _ _ _ _ (mem_unfinished_of_stake rfl hmem)
  | tear => exact hL.clearing _ _ _ _ hmem
  | beginTearing ahead' x' next torn =>
    rcases List.mem_cons.1 hmem with heq | hmem
    · cases heq
      exact hL.torn _ torn
    · exact hL.clearing _ _ _ _ hmem
  | endTearing top => exact hL.clearing _ _ _ _ (by rw [top]; exact List.mem_cons_of_mem _ hmem)

/-- **Moves keep the accounts in order.** -/
theorem Move.sound (hR : Tracks R) (h : Move L K) (hL : Sound R out L) : Sound R out K :=
  ⟨h.tallies hR hL, fun _ ht => h.torn hL ht, fun _ _ _ _ hmem => h.dead hL (h.clearing hL hmem)⟩

theorem Moves.sound (hR : Tracks R) (h : Moves L K) (hL : Sound R out L) : Sound R out K := by
  induction h with
  | refl => exact hL
  | tail _ hmove ih => exact hmove.sound hR ih

theorem Moves.dead (hR : Tracks R) (h : Moves L K) (hL : Sound R out L) (hd : L.Dead m) : K.Dead m := by
  induction h with
  | refl => exact hd
  | tail hmoves hmove ih => exact hmove.dead (Moves.sound hR hmoves hL) ih

end

end Ledger

namespace Config

variable {R : List Thread → List Thread → Prop} {out : CellId → List (Thread × Stake)} {c d : Config α} {n : CellId}

open Ledger (Sound)

/-- **A step keeps the accounts in order.** -/
theorem step_sound (hR : Tracks R) (hc : Sound R out c.ledger) : Sound R out c.step.ledger :=
  Ledger.Moves.sound hR (step_moves c) hc

theorem step_dead (hR : Tracks R) (hc : Sound R out c.ledger) (hd : c.ledger.Dead n) : c.step.ledger.Dead n :=
  Ledger.Moves.dead hR (step_moves c) hc hd

theorem Reaches.sound (hR : Tracks R) (h : Reaches c d) (hc : Sound R out c.ledger) : Sound R out d.ledger := by
  induction h with
  | refl => exact hc
  | tail _ ih => exact step_sound hR ih

end Config

end SlotRegistry
