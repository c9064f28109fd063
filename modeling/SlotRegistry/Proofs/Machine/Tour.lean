import SlotRegistry.Proofs.Machine.Extent
import SlotRegistry.Registry.Lemmas
/-!
# Tour — a walk shows its visitor the registry as it was

While a walk goes on its cell is locked, so whatever the visitor does, no registry of that cell is written.  The calls of
the visitor go through the ids that were present when the walk began, each once and with its value, up to the first call
that does not go on.
-/
namespace SlotRegistry

variable {α : Type}

/-- A call of a visitor that has ended: what it was shown, and how it ended. -/
structure Showing (α : Type) where
  id : SlotId
  value : Option α
  verdict : Verdict

/-- What the visitor was shown. -/
def Showing.entry (s : Showing α) : SlotId × Option α := (s.id, s.value)

namespace Registry

/-- What a visitor is to be shown of an id: its value, none when it is reserved. -/
def entry (r : Registry (Stored α)) (id : SlotId) : SlotId × Option α := (id, (r.get? id).map (·.value.payload))

/-- All that there is to show. -/
def snapshot (r : Registry (Stored α)) : List (SlotId × Option α) := r.ids.map r.entry

variable {r : Registry (Stored α)} {id : SlotId}

theorem map_fst_snapshot : r.snapshot.map Prod.fst = r.ids := by
  rw [snapshot, List.map_map]
  exact List.map_id _

theorem nodup_ids : r.ids.Nodup := Std.ExtTreeMap.nodup_keys

theorem mem_snapshot {e : SlotId × Option α} :
    e ∈ r.snapshot ↔ ∃ slot, r.slot? e.1 = some slot ∧ e.2 = slot.value?.map (·.value.payload) := by
  rw [snapshot, List.mem_map]
  constructor
  · rintro ⟨id, hid, rfl⟩
    obtain ⟨slot, hs⟩ := Option.isSome_iff_exists.1 (mem_ids.1 hid)
    exact ⟨slot, hs, by rw [entry, get?, hs]; rfl⟩
  · rintro ⟨slot, hs, hv⟩
    refine ⟨e.1, mem_ids.2 (by rw [hs]; rfl), Prod.ext rfl ?_⟩
    rw [hv, entry, get?, hs]
    rfl

/-- The calls of a visitor go through the registry: what they show is the beginning of what there is to show. -/
def Shown (r : Registry (Stored α)) (calls : List (SlotId × Option α)) : Prop := calls <+: r.snapshot

theorem Shown.nodup {calls : List (SlotId × Option α)} (h : r.Shown calls) : (calls.map Prod.fst).Nodup := by
  refine List.Nodup.sublist (List.IsPrefix.sublist (h.map Prod.fst)) ?_
  rw [map_fst_snapshot]
  exact nodup_ids

theorem Shown.present {calls : List (SlotId × Option α)} (h : r.Shown calls) {e : SlotId × Option α} (he : e ∈ calls) :
    ∃ slot, r.slot? e.1 = some slot ∧ e.2 = slot.value?.map (·.value.payload) := mem_snapshot.1 (h.mem he)

end Registry

/-- No call of the visitor was followed by another unless it went on. -/
def StopsAtFirst (seen : List (Showing α)) : Prop :=
  ∀ k s, seen[k]? = some s → s.verdict ≠ .goOn → seen.length = k + 1

theorem stopsAtFirst_of_goOn {seen : List (Showing α)} (h : ∀ s ∈ seen, s.verdict = .goOn) : StopsAtFirst seen :=
  fun _ _ hs hv => absurd (h _ (List.mem_of_getElem? hs)) hv

theorem stopsAtFirst_concat {seen : List (Showing α)} (h : ∀ s ∈ seen, s.verdict = .goOn) (s : Showing α) :
    StopsAtFirst (seen ++ [s]) := by
  intro k s' hs hv
  rw [List.length_append, List.length_singleton]
  rcases Nat.lt_trichotomy k seen.length with hk | rfl | hk
  · rw [List.getElem?_append_left hk] at hs
    exact absurd (h s' (List.mem_of_getElem? hs)) hv
  · rfl
  · rw [List.getElem?_eq_none (by simp; omega)] at hs
    cases hs

theorem Above.suffix {t u : Thread} {base stack : List (Frame α)} (h : Above t base u stack) : base <:+ stack := by
  induction h with
  | base => exact List.suffix_refl _
  | call _ ih => exact ih.trans (List.suffix_cons _ _)
  | join _ ih => exact ih.trans (List.suffix_cons _ _)

/-- What stands right above a stack is all that stands above it, if there is one call more. -/
theorem Above.eq_of_length {t u : Thread} {f : Frame α} {base stack : List (Frame α)} (h : Above t (f :: base) u stack)
    (hl : stack.length = base.length + 1) : stack = f :: base := by
  cases h with
  | base => rfl
  | call h =>
    have := h.length_le
    simp only [List.length_cons] at this hl
    omega
  | join h =>
    have := h.length_le
    simp only [List.length_cons] at this hl
    omega

namespace Config

open Ledger (Sound)

/-- The call of a visitor that ends in the next step, if the walk stands on a stack of that depth. -/
def ended (d : Config α) (depth : Nat) : List (Showing α) :=
  match d.control, d.stack with
  | .running (.finish v _), .call (.walking _ _ _ id value _) _ :: rest =>
    if rest.length = depth then [⟨id, value, v⟩] else []
  | _, _ => []

/-- The extent of a walk, with the calls of its visitor that have ended. -/
inductive Tour (c : Config α) : Config α → List (Showing α) → Prop
  | begun : Tour c c.step []
  | going {d : Config α} {seen : List (Showing α)} (h : Tour c d seen) (unfinished : ¬ d.Returned c.stack) :
      Tour c d.step (seen ++ d.ended c.stack.length)

variable {c d : Config α} {n : CellId} {r : Registry (Stored α)} {t : Thread} {base : List (Frame α)} {s : Scope α}
  {next : Outcome α → Program α} {seen : List (Showing α)} {id : SlotId} {value : Option α} {x : Outcome α}

theorem Tour.extent (h : Tour c d seen) : Extent c d := by
  induction h with
  | begun => exact .begun
  | going _ unfinished ih => exact .going ih unfinished

/-- A call of the visitor ends only in a walk that stands right on the stack. -/
theorem ended_eq_nil (h : ∀ m w visits i v ahead nx rest verdict report,
    d.stack = .call (.walking m w visits i v ahead) nx :: rest → d.control = .running (.finish verdict report) →
      rest.length ≠ base.length) : d.ended base.length = [] := by
  unfold ended
  split
  · rename_i v report m w visits i value ahead nx rest hc hs
    exact if_neg (h _ _ _ _ _ _ _ _ _ _ hs hc)
  · rfl

/-- All calls of the visitor have been made: up to the first one that did not go on, or one for each id. -/
structure Finished (r : Registry (Stored α)) (seen : List (Showing α)) : Prop where
  shown : r.Shown (seen.map Showing.entry)
  stops : StopsAtFirst seen
  all : (∀ s ∈ seen, s.verdict = .goOn) → seen.map Showing.entry = r.snapshot

/-- No user code runs right above the stack, unless it destroys the values of a cell that is cleared. -/
def Closing (t : Thread) (base : List (Frame α)) (d : Config α) : Prop :=
  (d.thread = t ∧ d.stack = base ∧ ∀ p, d.control ≠ .running p) ∨
  ∃ m ahead x next, Above t (.call (.tearing m ahead x) next :: base) d.thread d.stack

theorem idle_tearing {m : CellId} {ahead : List SlotId} (p : Program α) : Control.tearing m ahead x next ≠ .running p :=
  nofun

theorem idle_replying (p : Program α) : Control.replying x next ≠ .running p := nofun

theorem idle_aborted (p : Program α) : (Control.aborted : Control α) ≠ .running p := nofun

theorem closing_tearOn {m : CellId} {ahead : List SlotId} :
    Closing c.thread c.stack (c.tearOn m ahead x next) := by
  cases ahead with
  | nil => exact .inl ⟨rfl, rfl, idle_replying⟩
  | cons id ahead =>
    cases hcell : c.world.cells[m]? with
    | none =>
      rw [tearOn_of_missing hcell]
      exact .inl ⟨rfl, rfl, idle_replying⟩
    | some cell =>
      cases hs : cell.registry.get? id with
      | none =>
        rw [tearOn_of_none hcell hs]
        exact .inl ⟨rfl, rfl, idle_tearing⟩
      | some v =>
        rw [tearOn_of_value hcell hs]
        exact .inr ⟨m, ahead, x, next, .base⟩

theorem step_closing (h : Closing t base d) (unfinished : ¬ d.Returned base) : Closing t base d.step := by
  rcases h with ⟨rfl, rfl, hidle⟩ | ⟨m, ahead, x, next, above⟩
  · cases hc : d.control with
    | running p => exact absurd hc (hidle p)
    | replying x next => exact absurd ⟨rfl, x, next, hc⟩ unfinished
    | tearing m ahead x next => rw [step, hc]; exact closing_tearOn
    | blocked => rw [step, hc]; exact .inl ⟨rfl, rfl, hidle⟩
    | aborted => rw [step, hc]; exact .inl ⟨rfl, rfl, hidle⟩
  · by_cases hfin : d.stack = .call (.tearing m ahead x) next :: base ∧
        ∃ v report, d.control = .running (.finish v report)
    · obtain ⟨hstack, v, report, hc⟩ := hfin
      rw [hstack] at above
      have hthread := above.thread_eq
      rw [step_of_finish hc hstack]
      cases v with
      | goOn => cases x <;> exact .inl ⟨hthread, rfl, idle_tearing⟩
      | stop => cases x <;> exact .inl ⟨hthread, rfl, idle_tearing⟩
      | raise message =>
        cases x with
        | raised _ _ => exact .inl ⟨hthread, rfl, idle_aborted⟩
        | _ => exact .inl ⟨hthread, rfl, idle_replying⟩
    · exact .inr ⟨m, ahead, x, next, step_above above fun v report hc hstack => hfin ⟨hstack, v, report, hc⟩⟩

/-- How far a walk through the cell `n` is, that began with the registry `r`. -/
inductive Touring (n : CellId) (r : Registry (Stored α)) (t : Thread) (base : List (Frame α)) (d : Config α)
    (seen : List (Showing α)) : Prop
  /-- A call of the visitor is going on. -/
  | visiting {w : Array (Visit α) → SlotId → Option α → Program α} {visits : Array (Visit α)} {id : SlotId}
      {value : Option α} {ahead : List SlotId} {next : Outcome α → Program α}
      (above : Above t (.call (.walking n w visits id value ahead) next :: base) d.thread d.stack)
      (kept : HasRegistry n r d) (goneOn : ∀ s ∈ seen, s.verdict = .goOn)
      (shown : seen.map Showing.entry ++ (id, value) :: ahead.map r.entry = r.snapshot)
  | ended (finished : Finished r seen) (kept : HasRegistry n r d) (stack : d.stack = base)
      (reply : ∃ x next, d.control = .replying x next)
  /-- The walk was the last owner of the cell, which is being cleared. -/
  | closing (finished : Finished r seen) (dead : d.ledger.Dead n) (closing : Closing t base d)
  /-- The walk waits for ever to begin. -/
  | waiting (none : seen = []) (stack : d.stack = base) (blocked : d.control = .blocked)

theorem control_endReading :
    (c.endReading n x next).control = .replying x next ∨ (c.endReading n x next).control.torn = some n := by
  unfold endReading
  split
  · exact .inl rfl
  · exact control_letGo

theorem touring_endReading {out : CellId → List (Thread × Stake)} (finished : Finished r seen) (kept : HasRegistry n r c)
    (hd : Sound Eq out (c.endReading n x next).ledger) :
    Touring n r c.thread c.stack (c.endReading n x next) seen := by
  have hends : Ends n c (c.endReading n x next) := ends_endReading
  rcases control_endReading (c := c) (n := n) (x := x) with hreply | htorn
  · exact .ended finished ((hends.spares n).hasRegistry kept) hends.stack ⟨x, next, hreply⟩
  · exact .closing finished (hd.torn n htorn) (.inl ⟨hends.thread, hends.stack, hends.idle⟩)

theorem entry_eq (kept : HasRegistry n r c) : ((c.world.cells[n]?).bind (·.payload? id)) = (r.entry id).2 := by
  obtain ⟨cell, hc, rfl⟩ := kept
  rw [hc]
  rfl

theorem touring_walkOn {out : CellId → List (Thread × Stake)} {w : Array (Visit α) → SlotId → Option α → Program α}
    {visits : Array (Visit α)} {ahead : List SlotId} (kept : HasRegistry n r c) (goneOn : ∀ s ∈ seen, s.verdict = .goOn)
    (shown : seen.map Showing.entry ++ ahead.map r.entry = r.snapshot)
    (hd : Sound Eq out (c.walkOn n w visits ahead next).ledger) :
    Touring n r c.thread c.stack (c.walkOn n w visits ahead next) seen := by
  cases ahead with
  | nil =>
    rw [List.map_nil, List.append_nil] at shown
    exact touring_endReading ⟨⟨[], by rw [List.append_nil, shown]⟩, stopsAtFirst_of_goOn goneOn, fun _ => shown⟩ kept hd
  | cons id ahead =>
    refine .visiting .base kept goneOn ?_
    rw [entry_eq kept]
    exact shown

/-- A call of the visitor ends, and the walk goes on to the next id or is over. -/
theorem touring_resume {out : CellId → List (Thread × Stake)} {w : Array (Visit α) → SlotId → Option α → Program α}
    {visits : Array (Visit α)} {ahead : List SlotId} {v : Verdict} {report : Option (List (Answer α))}
    (kept : HasRegistry n r c) (goneOn : ∀ s ∈ seen, s.verdict = .goOn)
    (shown : seen.map Showing.entry ++ (id, value) :: ahead.map r.entry = r.snapshot)
    (hd : Sound Eq out (c.resume (.walking n w visits id value ahead) next v report).ledger) :
    Touring n r c.thread c.stack (c.resume (.walking n w visits id value ahead) next v report)
      (seen ++ [⟨id, value, v⟩]) := by
  have hahead : (seen ++ [Showing.mk id value v]).map Showing.entry ++ ahead.map r.entry = r.snapshot := by
    rw [← shown, List.map_append, List.append_assoc]
    rfl
  have hlast : Showing.mk id value v ∈ seen ++ [Showing.mk id value v] := by simp
  cases v with
  | goOn =>
    refine touring_walkOn kept (fun s hs => ?_) hahead hd
    rcases List.mem_append.1 hs with hs | hs
    · exact goneOn s hs
    · rw [List.mem_singleton.1 hs]
  | stop =>
    exact touring_endReading ⟨⟨_, hahead⟩, stopsAtFirst_concat goneOn _, fun hall => by cases hall _ hlast⟩ kept hd
  | raise message =>
    exact touring_endReading ⟨⟨_, hahead⟩, stopsAtFirst_concat goneOn _, fun hall => by cases hall _ hlast⟩ kept hd

/-- **A step of a walk** shows the registry as it was when the walk began. -/
theorem step_touring {out : CellId → List (Thread × Stake)} (h : Touring n r t base d seen) (hd : Sound Eq out d.ledger)
    (unfinished : ¬ d.Returned base) : Touring n r t base d.step (seen ++ d.ended base.length) := by
  have hd' := step_sound tracks_eq hd
  cases h with
  | @visiting w visits id value ahead next above kept goneOn shown =>
    by_cases hfin : d.stack = .call (.walking n w visits id value ahead) next :: base ∧
        ∃ v report, d.control = .running (.finish v report)
    · obtain ⟨hstack, v, report, hc⟩ := hfin
      have hended : d.ended base.length = [⟨id, value, v⟩] := by
        rw [ended, hc, hstack]
        exact if_pos rfl
      rw [hstack] at above
      rw [step_of_finish hc hstack] at hd' ⊢
      rw [hended, ← above.thread_eq]
      exact touring_resume (c := { d with stack := base }) kept goneOn shown hd'
    · have hended : d.ended base.length = [] := by
        refine ended_eq_nil fun m w' visits' i v ahead' nx rest verdict report hs hc hl => hfin ⟨?_, verdict, report, hc⟩
        exact above.eq_of_length (by rw [hs, List.length_cons, hl])
      rw [hended, List.append_nil]
      -- the walk is inside the cell, so nobody writes its registry
      have hframe : Frame.call (.walking n w visits id value ahead) next ∈ d.stack := above.mem List.mem_cons_self
      exact .visiting (step_above above fun v report hc hstack => hfin ⟨hstack, v, report, hc⟩)
        (step_hasRegistry tracks_eq hd hframe rfl kept) goneOn shown
  | ended finished kept stack reply => exact absurd ⟨stack, reply⟩ unfinished
  | closing finished dead closing =>
    have hended : d.ended base.length = [] := by
      refine ended_eq_nil fun m w visits i v ahead nx rest verdict report hs hc hl => ?_
      rcases closing with ⟨-, -, hidle⟩ | ⟨m', ahead', x', nx', above⟩
      · exact hidle _ hc
      · have heq := above.eq_of_length (by rw [hs, List.length_cons, hl])
        rw [hs] at heq
        cases heq
    rw [hended, List.append_nil]
    refine .closing finished (step_dead tracks_eq hd dead) ?_
    exact step_closing closing unfinished
  | waiting none stack blocked =>
    have hended : d.ended base.length = [] := by rw [ended, blocked]
    rw [hended, List.append_nil]
    have hstep : d.step = d := by rw [step, blocked]
    rw [hstep]
    exact .waiting none stack blocked

theorem touring_begun {out : CellId → List (Thread × Stake)} {h : Handle} {cell : Cell α}
    {w : Array (Visit α) → SlotId → Option α → Program α} (hsound : Sound Eq out c.ledger)
    (hc : c.control = .running (.call (.walk h w) next)) (hcell : c.world.cellOf? h = some (n, cell))
    (outside : c.thread ∉ cell.detector.inside) : Touring n cell.registry c.thread c.stack c.step [] := by
  obtain ⟨-, found⟩ := cellOf?_eq_some hcell
  have hd := step_sound tracks_eq hsound
  have hstep : c.step = c.walk n cell w next := by
    rw [step_of_call hc, perform, withCell, hcell]
  rw [hstep] at hd ⊢
  rcases reading_cases c cell (c.refuseEntry next) _ with ⟨hin, -⟩ | ⟨-, -, hwait⟩ | ⟨-, readers, hl, -⟩
  · exact absurd hin outside
  · rw [walk, hwait]
    exact .waiting rfl rfl rfl
  · rw [walk_of_shared outside hl] at hd ⊢
    have kept : HasRegistry n cell.registry (c.put n (cell.heldForReading c.thread readers).addOwner) :=
      ⟨_, List.getElem?_set_self (List.getElem?_eq_some_iff.1 found).1, rfl⟩
    exact touring_walkOn kept (fun _ hs => by cases hs) rfl hd

theorem Tour.touring {out : CellId → List (Thread × Stake)} {h : Handle} {cell : Cell α}
    {w : Array (Visit α) → SlotId → Option α → Program α} (ht : Tour c d seen) (hsound : Sound Eq out c.ledger)
    (hc : c.control = .running (.call (.walk h w) next)) (hcell : c.world.cellOf? h = some (n, cell))
    (outside : c.thread ∉ cell.detector.inside) : Touring n cell.registry c.thread c.stack d seen := by
  induction ht with
  | begun => exact touring_begun hsound hc hcell outside
  | going ht unfinished ih => exact step_touring ih (ht.extent.reaches.sound tracks_eq hsound) unfinished

/-- What a walk has shown so far. -/
theorem Touring.shown (h : Touring n r t base d seen) : r.Shown (seen.map Showing.entry) ∧ StopsAtFirst seen := by
  cases h with
  | visiting above kept goneOn shown => exact ⟨⟨_, shown⟩, stopsAtFirst_of_goOn goneOn⟩
  | ended finished => exact ⟨finished.shown, finished.stops⟩
  | closing finished => exact ⟨finished.shown, finished.stops⟩
  | waiting none =>
    subst none
    exact ⟨List.nil_prefix, nofun⟩

/-- A call of the visitor that is going on shows what comes next. -/
theorem Touring.showing {m : CellId} {w : Array (Visit α) → SlotId → Option α → Program α} {visits : Array (Visit α)}
    {ahead : List SlotId} (h : Touring n r t base d seen)
    (hs : .call (.walking m w visits id value ahead) next :: base <:+ d.stack) :
    (∀ s ∈ seen, s.verdict = .goOn) ∧ r.Shown (seen.map Showing.entry ++ [(id, value)]) := by
  -- only one frame can stand right above the stack
  have hframe : ∀ {f : Frame α}, Above t (f :: base) d.thread d.stack →
      f = .call (.walking m w visits id value ahead) next := by
    intro f above
    have heq := (List.suffix_of_suffix_length_le above.suffix hs (Nat.le_refl _)).eq_of_length rfl
    exact (List.cons.inj heq).1
  have hne : d.stack ≠ base := by
    intro heq
    have := hs.length_le
    rw [heq, List.length_cons] at this
    omega
  cases h with
  | visiting above kept goneOn shown =>
    cases hframe above
    exact ⟨goneOn, ⟨_, by rw [List.append_assoc]; exact shown⟩⟩
  | ended finished kept stack => exact absurd stack hne
  | closing finished dead closing =>
    rcases closing with ⟨-, hstack, -⟩ | ⟨m', ahead', x', next', above⟩
    · exact absurd hstack hne
    · cases hframe above
  | waiting none stack => exact absurd stack hne

/-- What a walk has come to when it is over. -/
theorem Touring.returned (h : Touring n r t base d seen) (hd : d.Returned base) :
    Finished r seen ∧ (HasRegistry n r d ∨ d.ledger.Dead n) := by
  obtain ⟨hstack, x, next, hc⟩ := hd
  cases h with
  | visiting above => exact absurd hstack above.ne_of_cons
  | ended finished kept => exact ⟨finished, .inl kept⟩
  | closing finished dead => exact ⟨finished, .inr dead⟩
  | waiting none stack blocked =>
    rw [blocked] at hc
    cases hc

/-- A walk that its thread begins inside the cell is turned away, and is over at once. -/
theorem Tour.of_inside {h : Handle} {cell : Cell α} {w : Array (Visit α) → SlotId → Option α → Program α}
    (ht : Tour c d seen) (hc : c.control = .running (.call (.walk h w) next))
    (hcell : c.world.cellOf? h = some (n, cell)) (inside : c.thread ∈ cell.detector.inside) :
    seen = [] ∧ d = c.refuseEntry next := by
  have hstep : c.step = c.refuseEntry next := by
    rw [step_of_call hc, perform, withCell, hcell]
    exact reading_of_inside inside
  induction ht with
  | begun => exact ⟨rfl, hstep⟩
  | going _ unfinished ih =>
    rw [ih.2] at unfinished
    exact absurd ⟨rfl, _, _, rfl⟩ unfinished

/-- **A walk shows its visitor the registry as it was when the walk began**, whatever the visitor does.  Its calls show
different ids, each of which was present, with its value or as reserved; when one does not go on it is the last.  Once
the walk is over the registry is as it was, if the cell still has owners; and every id has been shown if each call went
on, unless the walk was turned away because its thread was inside the cell already.  The walk comes to the ids in
ascending order, but nobody should rely on that: nothing here is said about the order in which they are shown. -/
theorem walk_shows_snapshot {v : Verbosity} {p : Program α} {h : Handle} {cell : Cell α}
    {w : Array (Visit α) → SlotId → Option α → Program α} (hr : Reaches (initial (World.empty v) p) c)
    (hc : c.control = .running (.call (.walk h w) next)) (hcell : c.world.cellOf? h = some (n, cell))
    (ht : Tour c d seen) :
    (seen.map Showing.id).Nodup ∧
    (∀ s ∈ seen, ∃ slot, cell.registry.slot? s.id = some slot ∧ s.value = slot.value?.map (·.value.payload)) ∧
    (∀ k s, seen[k]? = some s → s.verdict ≠ .goOn → seen.length = k + 1) ∧
    (∀ m w visits id value ahead nx, .call (.walking m w visits id value ahead) nx :: c.stack <:+ d.stack →
      (∀ s ∈ seen, s.verdict = .goOn) ∧ id ∉ seen.map Showing.id ∧
      ∃ slot, cell.registry.slot? id = some slot ∧ value = slot.value?.map (·.value.payload)) ∧
    (d.Returned c.stack →
      (c.thread ∉ cell.detector.inside → (∀ s ∈ seen, s.verdict = .goOn) →
        ∀ id, (cell.registry.slot? id).isSome → id ∈ seen.map Showing.id) ∧
      ∃ cell', d.world.cells[n]? = some cell' ∧ (cell'.owners ≠ 0 → cell'.registry = cell.registry)) := by
  by_cases inside : c.thread ∈ cell.detector.inside
  · obtain ⟨rfl, rfl⟩ := ht.of_inside hc hcell inside
    refine ⟨.nil, nofun, nofun, fun m w visits id value ahead nx hs => absurd hs.length_le ?_, fun _ =>
      ⟨fun outside => absurd inside outside, cell, (cellOf?_eq_some hcell).2, fun _ => rfl⟩⟩
    exact Nat.not_succ_le_self c.stack.length
  have hsound : Sound Eq (fun _ => []) c.ledger := hr.sound tracks_eq (Ledger.sound_of_nil tracks_eq rfl rfl rfl rfl)
  have htouring := ht.touring hsound hc hcell inside
  have hfst : (seen.map Showing.entry).map Prod.fst = seen.map Showing.id := by
    rw [List.map_map]
    rfl
  obtain ⟨hshown, hstops⟩ := htouring.shown
  refine ⟨by rw [← hfst]; exact hshown.nodup, fun s hs => hshown.present (List.mem_map_of_mem hs), hstops,
    fun m w visits id value ahead nx hs => ?_, fun hd => ⟨fun _ hall id hid => ?_, ?_⟩⟩
  · obtain ⟨goneOn, hnext⟩ := htouring.showing hs
    refine ⟨goneOn, fun hid => ?_, hnext.present (List.mem_append_right _ List.mem_cons_self)⟩
    have hnodup := hnext.nodup
    rw [List.map_append, hfst] at hnodup
    exact (List.nodup_append.1 hnodup).2.2 _ hid _ List.mem_cons_self rfl
  · obtain ⟨hfinished, -⟩ := htouring.returned hd
    rw [← hfst, hfinished.all hall, Registry.map_fst_snapshot]
    exact Registry.mem_ids.2 hid
  · rcases (htouring.returned hd).2 with ⟨cell', found, hreg⟩ | ⟨cell', found, hzero⟩
    · exact ⟨cell', found, fun _ => hreg⟩
    · exact ⟨cell', found, fun ho => absurd hzero ho⟩

/-- A visitor asks for an id of the registry that it is shown; it is turned away each time, and goes on. -/
def asksWhileShown : Program String :=
  .call (.create (.named "a")) fun _ => .call (.reserve (.named "a")) fun _ =>
    .call (.add (.named "a") 5 (.plain "x")) fun _ =>
      .call (.walk (.named "a") fun _ _ _ => .call (.reserve (.named "a")) fun _ => .finish .goOn none) fun _ => .idle

theorem walk_shows_what_was_there : ∃ c d : Config String, Reaches (initial (World.empty .trace) asksWhileShown) c ∧
    Tour c d [⟨1, none, .goOn⟩, ⟨5, some "x", .goOn⟩] ∧ d.Returned c.stack ∧
    ∃ cell cell', c.world.cells[0]? = some cell ∧ d.world.cells[0]? = some cell' ∧ cell'.registry = cell.registry := by
  have hr := reaches_advance 6 (initial (World.empty .trace) asksWhileShown)
  have hbusy : ∀ {d : Config String} {p}, d.control = .running p → ∀ base, ¬ d.Returned base := by
    rintro d p hp base ⟨-, x, next, hc⟩
    rw [hp] at hc
    cases hc
  have hinner : ∀ {d : Config String} {base}, d.stack.length ≠ base.length → ¬ d.Returned base :=
    fun hl hd => hl (congrArg List.length hd.1)
  have ht : Tour (advance 6 (initial (World.empty .trace) asksWhileShown)) _ _ :=
    .going (.going (.going (.going (.going (.going .begun (hbusy rfl _)) (hinner nofun)) (hbusy rfl _)) (hbusy rfl _))
      (hinner nofun)) (hbusy rfl _)
  obtain ⟨-, -, -, -, hover⟩ := walk_shows_snapshot hr rfl rfl ht
  obtain ⟨-, cell', found, hkept⟩ := hover ⟨rfl, _, _, rfl⟩
  refine ⟨_, _, hr, ht, ⟨rfl, _, _, rfl⟩, _, cell', rfl, found, hkept ?_⟩
  cases found
  decide

end Config

end SlotRegistry
