import SlotRegistry.Proofs.Machine.Trade
/-!
# Lending — a step beside one more owner

A cell may have one owner more than the calls and handles at hand account for: somebody else keeps it.  A step does not
see the difference, as long as the cell does not lose all its other owners: it comes to the same (`Came`), and what it
leaves of the world differs by that one owner again (`agrees_perform`, `agrees_resume`, `agrees_tearOn`).
-/
namespace SlotRegistry

variable {α : Type}

namespace Cell

/-- The cell `n` when the cell `k` has one more owner. -/
def lent (k n : CellId) (cell : Cell α) : Cell α := if k = n then cell.addOwner else cell

variable {k n : CellId} {cell : Cell α} {t : Thread} {readers : List Thread} {r : Registry (Stored α)}

@[simp] theorem registry_lent : (cell.lent k n).registry = cell.registry := by
  unfold lent
  split <;> rfl

@[simp] theorem lock_lent : (cell.lent k n).lock = cell.lock := by
  unfold lent
  split <;> rfl

@[simp] theorem detector_lent : (cell.lent k n).detector = cell.detector := by
  unfold lent
  split <;> rfl

theorem lent_of_ne (h : k ≠ n) : cell.lent k n = cell := if_neg h

theorem lent_self : cell.lent n n = cell.addOwner := if_pos rfl

/-- What does not look at the owners can be done before or after. -/
theorem lent_comm {f : Cell α → Cell α} (hf : ∀ cell : Cell α, f cell.addOwner = (f cell).addOwner) :
    f (cell.lent k n) = (f cell).lent k n := by
  unfold lent
  split
  · exact hf cell
  · rfl

theorem owners_lent_ne_zero (ho : cell.owners ≠ 0) : (cell.lent k n).owners ≠ 0 := by
  unfold lent
  split
  · exact Nat.succ_ne_zero _
  · exact ho

/-- Beside one more owner, a cell that keeps an owner when it loses one is not at its last either. -/
theorem lent_of_others (ho : cell.owners ≠ 1) (alive : k = n → cell.owners - 1 ≠ 0) :
    (cell.lent k n).owners ≠ 1 ∧ { cell.lent k n with owners := (cell.lent k n).owners - 1 } =
      ({ cell with owners := cell.owners - 1 } : Cell α).lent k n := by
  by_cases hkn : k = n
  · have hpos := alive hkn
    have howners : cell.owners + 1 - 1 = cell.owners - 1 + 1 := by omega
    subst hkn
    rw [lent_self, lent_self]
    refine ⟨fun h => hpos (by rw [Nat.succ.inj h]), ?_⟩
    unfold addOwner
    rw [howners]
  · rw [lent_of_ne hkn, lent_of_ne hkn]
    exact ⟨ho, rfl⟩

theorem payload?_lent {id : SlotId} : (cell.lent k n).payload? id = cell.payload? id := by
  rw [payload?, payload?, registry_lent]

theorem glance_lent : (cell.lent k n).glance = cell.glance := by
  rw [glance, glance, lock_lent, registry_lent]

end Cell

namespace World

/-- The world with one more owner of the cell `k`. -/
def lend (k : CellId) (w : World α) : World α := { w with cells := w.cells.modify k Cell.addOwner }

variable {w : World α} {k n m : CellId} {cell : Cell α} {h : Handle}

theorem getElem?_lend : (w.lend k).cells[n]? = (w.cells[n]?).map (Cell.lent k n) := by
  rw [lend, List.getElem?_modify]
  rfl

theorem lend_of_some (hc : w.cells[n]? = some cell) : (w.lend k).cells[n]? = some (cell.lent k n) := by
  rw [getElem?_lend, hc]
  rfl

theorem lend_of_none (hc : w.cells[n]? = none) : (w.lend k).cells[n]? = none := by
  rw [getElem?_lend, hc]
  rfl

theorem lend_put : (w.lend k).put n (cell.lent k n) = (w.put n cell).lend k := by
  have hcells : (w.cells.modify k Cell.addOwner).set n (cell.lent k n) =
      (w.cells.set n cell).modify k Cell.addOwner := by
    apply List.ext_getElem?
    intro m
    rw [List.getElem?_set, List.getElem?_modify, List.getElem?_modify, List.getElem?_set, List.length_modify]
    by_cases hm : n = m
    · subst hm
      rw [if_pos rfl, if_pos rfl]
      by_cases hn : n < w.cells.length
      · rw [if_pos hn, if_pos hn]
        rfl
      · rw [if_neg hn, if_neg hn]
        rfl
    · rw [if_neg hm, if_neg hm]
  unfold put lend
  rw [hcells]

/-- Writing a lent cell in a way that does not look at the owners. -/
theorem lend_put_comm {f : Cell α → Cell α} (hf : ∀ cell : Cell α, f cell.addOwner = (f cell).addOwner) :
    (w.lend k).put n (f (cell.lent k n)) = (w.put n (f cell)).lend k := by
  rw [Cell.lent_comm hf]
  exact lend_put

/-- Writing the cell as it was takes the owner back. -/
theorem lend_put_self (hc : w.cells[k]? = some cell) : (w.lend k).put k cell = w := by
  have hcells : (w.cells.modify k Cell.addOwner).set k cell = w.cells := by
    apply List.ext_getElem?
    intro m
    rw [List.getElem?_set, List.length_modify]
    by_cases hm : k = m
    · subst hm
      rw [if_pos rfl, if_pos (List.getElem?_eq_some_iff.1 hc).1, hc]
    · rw [if_neg hm, List.getElem?_modify_ne _ _ hm]
  unfold put lend
  rw [hcells]

theorem lend_put_same : (w.put k cell).lend k = w.put k cell.addOwner := by
  have hcells : (w.cells.set k cell).modify k Cell.addOwner = w.cells.set k cell.addOwner := by
    apply List.ext_getElem?
    intro m
    by_cases hm : k = m
    · subst hm
      rw [List.getElem?_modify_eq, List.getElem?_set, List.getElem?_set, if_pos rfl, if_pos rfl]
      split <;> rfl
    · rw [List.getElem?_modify_ne _ _ hm, List.getElem?_set_ne hm, List.getElem?_set_ne hm]
  unfold put lend
  rw [hcells]

theorem lend_emit {e : Event} {t : Thread} {lock : Lock} : (w.lend k).emit e n t lock = (w.emit e n t lock).lend k := by
  unfold emit
  change (if w.verbosity.shows e then _ else _) = _
  split <;> rfl

theorem lend_create (hk : k < w.cells.length) : (w.lend k).create.2 = w.create.2.lend k := by
  have hlength : (w.lend k).cells.length = w.cells.length := List.length_modify _ _ _
  have hcells : w.cells.modify k Cell.addOwner ++ [Cell.fresh] = (w.cells ++ [Cell.fresh]).modify k Cell.addOwner := by
    apply List.ext_getElem?
    intro m
    rw [List.getElem?_modify, List.getElem?_append, List.getElem?_append, List.length_modify, List.getElem?_modify]
    by_cases hm : m < w.cells.length
    · rw [if_pos hm, if_pos hm]
    · rw [if_neg hm, if_neg hm]
      have hkm : k ≠ m := by
        rintro rfl
        exact hm hk
      simp only [if_neg hkm, Option.map_eq_map, Option.map_id']
  unfold create
  rw [hlength]
  unfold lend log
  simp only [hcells]

theorem cellOf?_lend : (w.lend k).cellOf? h = (w.cellOf? h).map fun p => (p.1, p.2.lent k p.1) := by
  have hfind : (w.lend k).find? h = w.find? h := rfl
  unfold cellOf?
  rw [hfind]
  cases w.find? h with
  | none => rfl
  | some n =>
    simp only [Option.bind_some, getElem?_lend, Option.map_map]
    rfl

theorem cores_lend : (w.lend k).cores = w.cores := by
  unfold cores lend
  apply List.ext_getElem?
  intro n
  simp only [List.getElem?_map, List.getElem?_modify, Option.map_eq_map, Option.map_map]
  congr 1
  funext cell
  simp only [Function.comp_apply]
  split <;> rfl

end World

/-! ### What a step comes to -/

/-- What a step of a call comes to, whoever made it and whatever waits below it. -/
inductive Came (α : Type)
  | replies (x : Outcome α)
  /-- User code runs in a scope of the call. -/
  | enters (p : Program α) (s : Scope α)
  | clears (n : CellId) (ahead : List SlotId) (x : Outcome α)
  | waits
  | breaks

def Came.config (r : Came α) (w : World α) (t : Thread) (stack : List (Frame α)) (next : Outcome α → Program α) :
    Config α :=
  match r with
  | replies x => ⟨w, t, .replying x next, stack⟩
  | enters p s => ⟨w, t, .running p, .call s next :: stack⟩
  | clears n ahead x => ⟨w, t, .tearing n ahead x next, stack⟩
  | waits => ⟨w, t, .blocked, stack⟩
  | breaks => ⟨w, t, .aborted, stack⟩

namespace Config

/-- A step of a call, given what is to be done with its outcome. -/
abbrev Act (α : Type) := Config α → (Outcome α → Program α) → Config α

/-- From the world `w`, and whatever waits below, the step comes to `r` and leaves the world `w'`. -/
def Comes (t : Thread) (r : Came α) (f : Act α) (w w' : World α) : Prop :=
  ∀ control stack next, f ⟨w, t, control, stack⟩ next = r.config w' t stack next

/-- Two steps come to the same, the second one beside one more owner of the cell `k`; the worlds they leave differ by
that owner, unless the cell has lost all others. -/
def Agrees (k : CellId) (t : Thread) (w : World α) (f g : Act α) : Prop :=
  ∃ w' r, Comes t r f w w' ∧ (¬ w'.Dead k → Comes t r g (w.lend k) (w'.lend k))

variable {f g f₁ g₁ : Act α} {w w₁ u : World α} {k n : CellId} {t : Thread} {cell : Cell α} {id : SlotId}
  {x : Outcome α} {r : Registry (Stored α)} {why : Refusal} {readers : List Thread} {h : Handle} {ticket : Ticket}

theorem agrees_of_comes {came : Came α} {w' : World α} (hf : Comes t came f w w') (hg : Comes t came g (w.lend k) u)
    (hw : u = w'.lend k) :
    Agrees k t w f g := by
  subst hw
  exact ⟨w', came, hf, fun _ => hg⟩

/-- The steps go on as others do from a world that was changed. -/
theorem Agrees.of_world (ha : Agrees k t w₁ f₁ g₁)
    (hf : ∀ control stack next, f ⟨w, t, control, stack⟩ next = f₁ ⟨w₁, t, control, stack⟩ next)
    (hg : ∀ control stack next, g ⟨w.lend k, t, control, stack⟩ next = g₁ ⟨u, t, control, stack⟩ next)
    (hw : u = w₁.lend k) : Agrees k t w f g := by
  subst hw
  obtain ⟨w', r, hcomes, hcomes'⟩ := ha
  refine ⟨w', r, fun control stack next => ?_, fun alive control stack next => ?_⟩
  · rw [hf]
    exact hcomes control stack next
  · rw [hg]
    exact hcomes' alive control stack next

theorem agrees_reply (x : Outcome α) : Agrees k t w (fun c next => c.reply x next) (fun c next => c.reply x next) :=
  ⟨w, .replies x, fun _ _ _ => rfl, fun _ _ _ _ => rfl⟩

/-! ### Letting go -/

theorem dead_put (cell' : Cell α) (hc : w.cells[n]? = some cell) (ho : cell'.owners = 0) : (w.put n cell').Dead n :=
  ⟨cell', List.getElem?_set_self (List.getElem?_eq_some_iff.1 hc).1, ho⟩

theorem agrees_letGo : Agrees k t w (fun c next => c.letGo n x next) (fun c next => c.letGo n x next) := by
  cases hc : w.cells[n]? with
  | none =>
    have hc' : (w.lend k).cells[n]? = none := World.lend_of_none hc
    exact ⟨w, .replies x, fun _ _ _ => letGo_of_missing hc, fun _ _ _ _ => letGo_of_missing hc'⟩
  | some cell =>
    have hc' : (w.lend k).cells[n]? = some (cell.lent k n) := World.lend_of_some hc
    by_cases ho : cell.owners = 1
    · refine ⟨(w.put n { cell with owners := 0 }).log (.closed n), .clears n cell.registry.ids x,
        fun _ _ _ => letGo_of_last hc ho, fun alive control stack next => ?_⟩
      have hkn : k ≠ n := by
        rintro rfl
        exact alive (dead_put { cell with owners := 0 } hc rfl)
      rw [Cell.lent_of_ne hkn] at hc'
      have hput : (w.lend k).put n { cell with owners := 0 } = (w.put n { cell with owners := 0 }).lend k := by
        rw [← World.lend_put, Cell.lent_of_ne hkn]
      refine (letGo_of_last (c := ⟨w.lend k, t, control, stack⟩) hc' ho).trans ?_
      exact congrArg (fun w => Came.config (.clears n cell.registry.ids x) (w.log (.closed n)) t stack next) hput
    · refine ⟨w.put n { cell with owners := cell.owners - 1 }, .replies x, fun _ _ _ => letGo_of_others hc ho,
        fun alive control stack next => ?_⟩
      have hpos : k = n → cell.owners - 1 ≠ 0 := by
        rintro rfl hz
        exact alive (dead_put { cell with owners := cell.owners - 1 } hc hz)
      have howners := Cell.lent_of_others ho hpos
      refine (letGo_of_others (c := ⟨w.lend k, t, control, stack⟩) hc' howners.1).trans ?_
      rw [howners.2]
      exact congrArg (fun w => Came.config (.replies x) w t stack next) World.lend_put

theorem agrees_endReading :
    Agrees k t w (fun c next => c.endReading n x next) (fun c next => c.endReading n x next) := by
  cases hc : w.cells[n]? with
  | none =>
    have hc' : (w.lend k).cells[n]? = none := World.lend_of_none hc
    refine (agrees_reply (w := w) x).of_world (u := w.lend k) (fun control stack next => ?_)
      (fun control stack next => ?_) rfl
    · simp only [endReading, hc]
    · simp only [endReading, hc']
  | some cell =>
    have hc' : (w.lend k).cells[n]? = some (cell.lent k n) := World.lend_of_some hc
    refine (agrees_letGo (w := w.put n ((cell.endRead t).leave t)) (n := n) (x := x)).of_world
      (u := (w.lend k).put n (((cell.lent k n).endRead t).leave t)) (fun control stack next => ?_)
      (fun control stack next => ?_) (World.lend_put_comm (f := fun cell => (cell.endRead t).leave t) fun _ => rfl)
    · simp only [endReading, hc]
      rfl
    · simp only [endReading, hc']
      rfl

theorem agrees_endWriting :
    Agrees k t w (fun c next => c.endWriting n x next) (fun c next => c.endWriting n x next) := by
  cases hc : w.cells[n]? with
  | none =>
    have hc' : (w.lend k).cells[n]? = none := World.lend_of_none hc
    refine (agrees_reply (w := w) x).of_world (u := w.lend k) (fun control stack next => ?_)
      (fun control stack next => ?_) rfl
    · simp only [endWriting, hc]
    · simp only [endWriting, hc']
  | some cell =>
    have hc' : (w.lend k).cells[n]? = some (cell.lent k n) := World.lend_of_some hc
    refine (agrees_letGo (w := w.put n (cell.endWrite.leave t)) (n := n) (x := x)).of_world
      (u := (w.lend k).put n ((cell.lent k n).endWrite.leave t)) (fun control stack next => ?_)
      (fun control stack next => ?_) (World.lend_put_comm (f := fun cell => cell.endWrite.leave t) fun _ => rfl)
    · simp only [endWriting, hc]
      rfl
    · simp only [endWriting, hc']
      rfl

theorem agrees_walkOn {visit : Array (Visit α) → SlotId → Option α → Program α} {visits : Array (Visit α)}
    {ahead : List SlotId} : Agrees k t w (fun c next => c.walkOn n visit visits ahead next)
      (fun c next => c.walkOn n visit visits ahead next) := by
  cases ahead with
  | nil => exact agrees_endReading
  | cons id ahead =>
    have hvalue : ((w.lend k).cells[n]?).bind (·.payload? id) = (w.cells[n]?).bind (·.payload? id) := by
      rw [World.getElem?_lend]
      cases w.cells[n]? with
      | none => rfl
      | some cell => exact Cell.payload?_lent
    refine ⟨w, .enters (visit visits id ((w.cells[n]?).bind (·.payload? id)))
      (.walking n visit visits id ((w.cells[n]?).bind (·.payload? id)) ahead), fun _ _ _ => rfl,
      fun _ control stack next => ?_⟩
    simp only [walkOn, hvalue]
    rfl

/-- **A call goes on in the same way beside one more owner.** -/
theorem agrees_resume {s : Scope α} {v : Verdict} {report : Option (List (Answer α))} :
    Agrees k t w (fun c next => c.resume s next v report) (fun c next => c.resume s next v report) := by
  have hclears : ∀ {n : CellId} {ahead : List SlotId} {x : Outcome α},
      Agrees k t w (fun c next => { c with control := .tearing n ahead x next })
        (fun c next => { c with control := .tearing n ahead x next }) :=
    fun {n ahead x} => ⟨w, .clears n ahead x, fun _ _ _ => rfl, fun _ _ _ _ => rfl⟩
  have hbreaks : Agrees k t w (fun c _ => c.abort) (fun c _ => c.abort) :=
    ⟨w, .breaks, fun _ _ _ => rfl, fun _ _ _ _ => rfl⟩
  cases s with
  | walking n visit visits id value ahead =>
    cases v with
    | goOn => exact agrees_walkOn
    | stop => exact agrees_endReading
    | raise message => exact agrees_endReading
  | copying n payload => cases v <;> exact agrees_endReading
  | rejecting n why => cases v <;> exact agrees_endWriting
  | bouncing n =>
    cases v with
    | goOn => exact agrees_letGo
    | stop => exact agrees_letGo
    | raise message => exact hbreaks
  | discarding n => cases v <;> exact agrees_letGo
  | tearing n ahead x =>
    cases v with
    | goOn => cases x <;> exact hclears
    | stop => cases x <;> exact hclears
    | raise message =>
      cases x with
      | raised _ _ => exact hbreaks
      | _ => exact agrees_reply _
  | disposing => cases v <;> exact agrees_reply _

/-! ### Calls -/

/-- A call that enters a cell to write is turned away, or waits, beside one more owner as well. -/
theorem agrees_writing {refused refused' : Act α}
    {inside inside' : Config α → (Outcome α → Program α) → Cell α → Config α}
    (hf : ∀ c next, f c next = c.writing cell (refused c next) (inside c next))
    (hg : ∀ c next, g c next = c.writing (cell.lent k n) (refused' c next) (inside' c next))
    (hrefused : Agrees k t w refused refused')
    (hfree : t ∉ cell.detector.inside → cell.lock = .free → t ∉ (cell.lent k n).detector.inside →
      (cell.lent k n).lock = .free → Agrees k t w f g) : Agrees k t w f g := by
  have hdetector : (cell.lent k n).detector = cell.detector := Cell.detector_lent
  have hlock : (cell.lent k n).lock = cell.lock := Cell.lock_lent
  by_cases hin : t ∈ cell.detector.inside
  · have hin' : t ∈ (cell.lent k n).detector.inside := hdetector ▸ hin
    exact hrefused.of_world (fun control stack next => (hf _ _).trans (writing_of_inside hin))
      (fun control stack next => (hg _ _).trans (writing_of_inside hin')) rfl
  · have hin' : t ∉ (cell.lent k n).detector.inside := hdetector ▸ hin
    by_cases hl : cell.lock = .free
    · exact hfree hin hl hin' (hlock.trans hl)
    · have hl' : (cell.lent k n).lock ≠ .free := hlock ▸ hl
      exact ⟨w, .waits, fun control stack next => (hf ⟨w, t, control, stack⟩ next).trans (writing_of_held hin hl),
        fun _ control stack next => (hg ⟨w.lend k, t, control, stack⟩ next).trans (writing_of_held hin' hl')⟩

/-- A call that enters a cell to read is turned away, or waits, beside one more owner as well. -/
theorem agrees_reading {refused refused' : Act α}
    {inside inside' : Config α → (Outcome α → Program α) → Cell α → Config α}
    (hf : ∀ c next, f c next = c.reading cell (refused c next) (inside c next))
    (hg : ∀ c next, g c next = c.reading (cell.lent k n) (refused' c next) (inside' c next))
    (hrefused : Agrees k t w refused refused')
    (hshared : t ∉ cell.detector.inside → t ∉ (cell.lent k n).detector.inside → ∀ readers,
      cell.lock = .shared readers → (cell.lent k n).lock = .shared readers → Agrees k t w f g) : Agrees k t w f g := by
  have hdetector : (cell.lent k n).detector = cell.detector := Cell.detector_lent
  have hlock : (cell.lent k n).lock = cell.lock := Cell.lock_lent
  by_cases hin : t ∈ cell.detector.inside
  · have hin' : t ∈ (cell.lent k n).detector.inside := hdetector ▸ hin
    exact hrefused.of_world (fun control stack next => (hf _ _).trans (reading_of_inside hin))
      (fun control stack next => (hg _ _).trans (reading_of_inside hin')) rfl
  · have hin' : t ∉ (cell.lent k n).detector.inside := hdetector ▸ hin
    cases hl : cell.lock with
    | shared readers => exact hshared hin hin' readers hl (hlock.trans hl)
    | exclusive u =>
      have hl' : (cell.lent k n).lock = .exclusive u := hlock.trans hl
      exact ⟨w, .waits, fun control stack next => (hf ⟨w, t, control, stack⟩ next).trans (reading_of_exclusive hin hl),
        fun _ control stack next => (hg ⟨w.lend k, t, control, stack⟩ next).trans (reading_of_exclusive hin' hl')⟩

theorem comes_reserve_of_ok (hin : t ∉ cell.detector.inside) (hl : cell.lock = .free)
    (hr : cell.registry.reserve = .ok (id, r)) :
    Comes t (.replies (.reserved ⟨id, n⟩)) (fun c next => c.reserve n cell next) w
      ((w.emit (.reserved id) n t .free).put n (cell.withRegistry r)) :=
  fun control stack _ => reserve_of_ok (c := ⟨w, t, control, stack⟩) hin hl hr

theorem comes_reserve_of_error (hin : t ∉ cell.detector.inside) (hl : cell.lock = .free)
    (hr : cell.registry.reserve = .error why) :
    Comes t (.replies (.refused why)) (fun c next => c.reserve n cell next) w
      ((w.emit (.exhausted cell.registry.cursor) n t (.shared [t])).put n cell) :=
  fun control stack _ => reserve_of_error (c := ⟨w, t, control, stack⟩) hin hl hr

theorem agrees_reserve :
    Agrees k t w (fun c next => c.reserve n cell next) (fun c next => c.reserve n (cell.lent k n) next) := by
  refine agrees_writing (fun _ _ => rfl) (fun _ _ => rfl) (agrees_reply _) fun hin hl hin' hl' => ?_
  have hregistry : (cell.lent k n).registry = cell.registry := Cell.registry_lent
  cases hr : cell.registry.reserve with
  | ok p =>
    obtain ⟨id, r⟩ := p
    refine agrees_of_comes (comes_reserve_of_ok hin hl hr) (comes_reserve_of_ok hin' hl' (hregistry ▸ hr)) ?_
    rw [World.lend_emit]
    exact World.lend_put_comm (f := fun cell => cell.withRegistry r) fun _ => rfl
  | error why =>
    refine agrees_of_comes (comes_reserve_of_error hin hl hr) (comes_reserve_of_error hin' hl' (hregistry ▸ hr)) ?_
    rw [World.lend_emit, hregistry]
    exact World.lend_put

section Store

variable {v : Value α (Program α)} {event : Event}
  {bind : Registry (Stored α) → SlotId → Stored α → Except Refusal (Registry (Stored α))}

theorem comes_store_of_inside (hin : t ∈ cell.detector.inside) :
    Comes t (.enters v.onDestroy (.bouncing n)) (fun c next => c.store n cell id v bind event x next) w
      (((w.handOver v n id).2.put n cell.addOwner).log (.destroyed w.handed)) :=
  fun control stack _ => store_of_inside (c := ⟨w, t, control, stack⟩) hin

theorem comes_store_of_held (hin : t ∉ cell.detector.inside) (hl : cell.lock ≠ .free) :
    Comes t .waits (fun c next => c.store n cell id v bind event x next) w (w.handOver v n id).2 :=
  fun control stack _ => store_of_held (c := ⟨w, t, control, stack⟩) hin hl

theorem comes_store_of_ok (hin : t ∉ cell.detector.inside) (hl : cell.lock = .free)
    (hr : bind cell.registry id ⟨w.handed, v⟩ = .ok r) :
    Comes t (.replies x) (fun c next => c.store n cell id v bind event x next) w
      (((w.handOver v n id).2.emit event n t .free).put n (cell.withRegistry r)) :=
  fun control stack _ => store_of_ok (c := ⟨w, t, control, stack⟩) hin hl hr

theorem comes_store_of_error (hin : t ∉ cell.detector.inside) (hl : cell.lock = .free)
    (hr : bind cell.registry id ⟨w.handed, v⟩ = .error why) :
    Comes t (.enters v.onDestroy (.rejecting n why)) (fun c next => c.store n cell id v bind event x next) w
      (((w.handOver v n id).2.put n (cell.heldForWriting t).addOwner).log (.destroyed w.handed)) :=
  fun control stack _ => store_of_error (c := ⟨w, t, control, stack⟩) hin hl hr

theorem agrees_store : Agrees k t w (fun c next => c.store n cell id v bind event x next)
    (fun c next => c.store n (cell.lent k n) id v bind event x next) := by
  have hdetector : (cell.lent k n).detector = cell.detector := Cell.detector_lent
  have hlock : (cell.lent k n).lock = cell.lock := Cell.lock_lent
  have hregistry : (cell.lent k n).registry = cell.registry := Cell.registry_lent
  have hover : ((w.lend k).handOver v n id).2 = (w.handOver v n id).2.lend k := rfl
  by_cases hin : t ∈ cell.detector.inside
  · refine agrees_of_comes (comes_store_of_inside hin) (comes_store_of_inside (hdetector ▸ hin)) ?_
    rw [hover, World.lend_put_comm (f := Cell.addOwner) fun _ => rfl]
    rfl
  have hin' : t ∉ (cell.lent k n).detector.inside := hdetector ▸ hin
  by_cases hl : cell.lock = .free
  · have hl' : (cell.lent k n).lock = .free := hlock.trans hl
    cases hr : bind cell.registry id ⟨w.handed, v⟩ with
    | ok r =>
      have hr' : bind (cell.lent k n).registry id ⟨(w.lend k).handed, v⟩ = .ok r := hregistry ▸ hr
      refine agrees_of_comes (comes_store_of_ok hin hl hr) (comes_store_of_ok hin' hl' hr') ?_
      rw [hover, World.lend_emit]
      exact World.lend_put_comm (f := fun cell => cell.withRegistry r) fun _ => rfl
    | error why =>
      have hr' : bind (cell.lent k n).registry id ⟨(w.lend k).handed, v⟩ = .error why := hregistry ▸ hr
      refine agrees_of_comes (comes_store_of_error hin hl hr) (comes_store_of_error hin' hl' hr') ?_
      rw [hover, World.lend_put_comm (f := fun cell => (cell.heldForWriting t).addOwner) fun _ => rfl]
      rfl
  · exact agrees_of_comes (comes_store_of_held hin hl) (comes_store_of_held hin' (hlock ▸ hl)) hover

end Store

theorem comes_pop_of_ok {s : Stored α} (hin : t ∉ cell.detector.inside) (hl : cell.lock = .free)
    (hr : cell.registry.take id = .ok (s, r)) :
    Comes t (.replies (.popped s.serial s.value.payload)) (fun c next => c.pop n cell id next) w
      (((w.emit (.popped id) n t .free).put n (cell.withRegistry r)).giveBack s) :=
  fun control stack _ => pop_of_ok (c := ⟨w, t, control, stack⟩) hin hl hr

theorem comes_pop_of_error (hin : t ∉ cell.detector.inside) (hl : cell.lock = .free)
    (hr : cell.registry.take id = .error why) :
    Comes t (.replies (.refused why)) (fun c next => c.pop n cell id next) w (w.put n cell) :=
  fun control stack _ => pop_of_error (c := ⟨w, t, control, stack⟩) hin hl hr

theorem agrees_pop :
    Agrees k t w (fun c next => c.pop n cell id next) (fun c next => c.pop n (cell.lent k n) id next) := by
  refine agrees_writing (fun _ _ => rfl) (fun _ _ => rfl) (agrees_reply _) fun hin hl hin' hl' => ?_
  have hregistry : (cell.lent k n).registry = cell.registry := Cell.registry_lent
  cases hr : cell.registry.take id with
  | ok p =>
    obtain ⟨s, r⟩ := p
    refine agrees_of_comes (comes_pop_of_ok hin hl hr) (comes_pop_of_ok hin' hl' (hregistry ▸ hr)) ?_
    rw [World.lend_emit, World.lend_put_comm (f := fun cell => cell.withRegistry r) fun _ => rfl]
    rfl
  | error why =>
    exact agrees_of_comes (comes_pop_of_error hin hl hr) (comes_pop_of_error hin' hl' (hregistry ▸ hr)) World.lend_put

theorem comes_query {answer : Registry (Stored α) → Outcome α} (hin : t ∉ cell.detector.inside)
    (hl : cell.lock = .shared readers) (hr : cell.registry = r) :
    Comes t (.replies (answer r)) (fun c next => c.query n cell answer next) w (w.put n cell) := by
  subst hr
  exact fun control stack _ => query_of_shared (c := ⟨w, t, control, stack⟩) hin hl

theorem agrees_query {answer : Registry (Stored α) → Outcome α} :
    Agrees k t w (fun c next => c.query n cell answer next) (fun c next => c.query n (cell.lent k n) answer next) := by
  refine agrees_reading (fun _ _ => rfl) (fun _ _ => rfl) (agrees_reply _) fun hin hin' readers hl hl' => ?_
  exact agrees_of_comes (comes_query hin hl rfl) (comes_query hin' hl' Cell.registry_lent) World.lend_put

theorem comes_get_of_none (hin : t ∉ cell.detector.inside) (hl : cell.lock = .shared readers)
    (hr : cell.registry.get? id = none) :
    Comes t (.replies (.found none)) (fun c next => c.get n cell id next) w (w.put n cell) :=
  fun control stack _ => get_of_none (c := ⟨w, t, control, stack⟩) hin hl hr

theorem comes_get_of_some {s : Stored α} (hin : t ∉ cell.detector.inside) (hl : cell.lock = .shared readers)
    (hr : cell.registry.get? id = some s) :
    Comes t (.enters s.value.onCopy (.copying n s.value.payload)) (fun c next => c.get n cell id next) w
      (w.put n (cell.heldForReading t readers).addOwner) :=
  fun control stack _ => get_of_some (c := ⟨w, t, control, stack⟩) hin hl hr

theorem agrees_get :
    Agrees k t w (fun c next => c.get n cell id next) (fun c next => c.get n (cell.lent k n) id next) := by
  refine agrees_reading (fun _ _ => rfl) (fun _ _ => rfl) (agrees_reply _) fun hin hin' readers hl hl' => ?_
  have hregistry : (cell.lent k n).registry = cell.registry := Cell.registry_lent
  cases hr : cell.registry.get? id with
  | none =>
    exact agrees_of_comes (comes_get_of_none hin hl hr) (comes_get_of_none hin' hl' (hregistry ▸ hr)) World.lend_put
  | some s =>
    exact agrees_of_comes (comes_get_of_some hin hl hr) (comes_get_of_some hin' hl' (hregistry ▸ hr))
      (World.lend_put_comm (f := fun cell => (cell.heldForReading t readers).addOwner) fun _ => rfl)

theorem agrees_walk {visit : Array (Visit α) → SlotId → Option α → Program α} :
    Agrees k t w (fun c next => c.walk n cell visit next) (fun c next => c.walk n (cell.lent k n) visit next) := by
  refine agrees_reading (fun _ _ => rfl) (fun _ _ => rfl) (agrees_reply _) fun hin hin' readers hl hl' => ?_
  have hregistry : (cell.lent k n).registry = cell.registry := Cell.registry_lent
  have hgoes : Agrees k t (w.put n (cell.heldForReading t readers).addOwner)
      (fun c next => c.walkOn n visit #[] cell.registry.ids next)
      (fun c next => c.walkOn n visit #[] cell.registry.ids next) := agrees_walkOn
  refine hgoes.of_world (u := (w.lend k).put n ((cell.lent k n).heldForReading t readers).addOwner)
    (fun control stack next => walk_of_shared (c := ⟨w, t, control, stack⟩) hin hl) (fun control stack next => ?_)
    (World.lend_put_comm (f := fun cell => (cell.heldForReading t readers).addOwner) fun _ => rfl)
  refine (walk_of_shared (c := ⟨w.lend k, t, control, stack⟩) hin' hl').trans ?_
  rw [hregistry]
  rfl

theorem comes_release_of_dead (hc : w.cells[ticket.cell]? = some cell) (ho : cell.owners = 0) :
    Comes t (.replies .done) (fun c next => c.release ticket next) w w :=
  fun control stack _ => release_of_dead (c := ⟨w, t, control, stack⟩) hc ho

theorem comes_release_of_occupied {s : Stored α} (hc : w.cells[ticket.cell]? = some cell) (ho : cell.owners ≠ 0)
    (hin : t ∉ cell.detector.inside) (hl : cell.lock = .free)
    (hs : cell.registry.slot? ticket.id = some (.occupied s)) :
    Comes t (.enters s.value.onDestroy (.discarding ticket.cell)) (fun c next => c.release ticket next) w
      (((w.emit (.released ticket.id true) ticket.cell t .free).put ticket.cell
        (cell.withRegistry (cell.registry.remove ticket.id)).addOwner).log (.destroyed s.serial)) :=
  fun control stack _ => release_of_occupied (c := ⟨w, t, control, stack⟩) hc ho hin hl hs

theorem comes_release_of_not_occupied (hc : w.cells[ticket.cell]? = some cell) (ho : cell.owners ≠ 0)
    (hin : t ∉ cell.detector.inside) (hl : cell.lock = .free)
    (hs : ∀ s, cell.registry.slot? ticket.id ≠ some (.occupied s)) :
    Comes t (.replies .done) (fun c next => c.release ticket next) w
      ((w.emit (.released ticket.id (cell.registry.slot? ticket.id).isSome) ticket.cell t .free).put ticket.cell
        (cell.withRegistry (cell.registry.remove ticket.id))) :=
  fun control stack _ => release_of_not_occupied (c := ⟨w, t, control, stack⟩) hc ho hin hl hs

theorem agrees_release_of_alive (hc : w.cells[ticket.cell]? = some cell) (ho : cell.owners ≠ 0) :
    Agrees k t w (fun c next => c.release ticket next) (fun c next => c.release ticket next) := by
  have hc' : (w.lend k).cells[ticket.cell]? = some (cell.lent k ticket.cell) := World.lend_of_some hc
  have ho' : (cell.lent k ticket.cell).owners ≠ 0 := Cell.owners_lent_ne_zero ho
  have hregistry : (cell.lent k ticket.cell).registry = cell.registry := Cell.registry_lent
  have hdetector : (cell.lent k ticket.cell).detector = cell.detector := Cell.detector_lent
  have hlock : (cell.lent k ticket.cell).lock = cell.lock := Cell.lock_lent
  by_cases hin : t ∈ cell.detector.inside
  · have hin' : t ∈ (cell.lent k ticket.cell).detector.inside := hdetector ▸ hin
    exact ⟨w, .replies (.raised reentryMessage #[]),
      fun control stack _ => release_of_inside (c := ⟨w, t, control, stack⟩) hc ho hin,
      fun _ control stack _ => release_of_inside (c := ⟨w.lend k, t, control, stack⟩) hc' ho' hin'⟩
  have hin' : t ∉ (cell.lent k ticket.cell).detector.inside := hdetector ▸ hin
  by_cases hl : cell.lock = .free
  · have hl' : (cell.lent k ticket.cell).lock = .free := hlock.trans hl
    by_cases hs : ∃ s, cell.registry.slot? ticket.id = some (.occupied s)
    · obtain ⟨s, hs⟩ := hs
      refine agrees_of_comes (comes_release_of_occupied hc ho hin hl hs)
        (comes_release_of_occupied hc' ho' hin' hl' (hregistry ▸ hs)) ?_
      rw [World.lend_emit, hregistry, World.lend_put_comm
        (f := fun cell' => (cell'.withRegistry (cell.registry.remove ticket.id)).addOwner) fun _ => rfl]
      rfl
    · have hs : ∀ s, cell.registry.slot? ticket.id ≠ some (.occupied s) := fun s h => hs ⟨s, h⟩
      refine agrees_of_comes (comes_release_of_not_occupied hc ho hin hl hs)
        (comes_release_of_not_occupied hc' ho' hin' hl' (hregistry ▸ hs)) ?_
      rw [World.lend_emit, hregistry]
      exact World.lend_put_comm (f := fun cell' => cell'.withRegistry (cell.registry.remove ticket.id)) fun _ => rfl
  · have hl' : (cell.lent k ticket.cell).lock ≠ .free := hlock ▸ hl
    exact ⟨w, .waits, fun control stack _ => release_of_held (c := ⟨w, t, control, stack⟩) hc ho hin hl,
      fun _ control stack _ => release_of_held (c := ⟨w.lend k, t, control, stack⟩) hc' ho' hin' hl'⟩

/-- A release finds its cell alive beside one more owner, unless it is dead without. -/
theorem agrees_release :
    Agrees k t w (fun c next => c.release ticket next) (fun c next => c.release ticket next) := by
  cases hc : w.cells[ticket.cell]? with
  | none =>
    have hc' : (w.lend k).cells[ticket.cell]? = none := World.lend_of_none hc
    exact ⟨w, .replies .done, fun control stack _ => release_of_missing (c := ⟨w, t, control, stack⟩) hc,
      fun _ control stack _ => release_of_missing (c := ⟨w.lend k, t, control, stack⟩) hc'⟩
  | some cell =>
    by_cases ho : cell.owners = 0
    · refine ⟨w, .replies .done, comes_release_of_dead hc ho, fun alive => ?_⟩
      have hk : k ≠ ticket.cell := by
        rintro rfl
        exact alive ⟨cell, hc, ho⟩
      have hc' : (w.lend k).cells[ticket.cell]? = some cell := by
        rw [World.lend_of_some hc, Cell.lent_of_ne hk]
      exact comes_release_of_dead hc' ho
    · exact agrees_release_of_alive hc ho

theorem comes_dispose_of_none {serial : Nat} (hs : w.given? serial = none) :
    Comes t (.replies .done) (fun c next => c.dispose serial next) w w := by
  intro control stack next
  simp only [dispose, hs]
  rfl

theorem comes_dispose_of_some {serial : Nat} {s : Stored α} (hs : w.given? serial = some s) :
    Comes t (.enters s.value.onDestroy .disposing) (fun c next => c.dispose serial next) w (w.forget serial) := by
  intro control stack next
  simp only [dispose, hs]
  rfl

theorem agrees_dispose {serial : Nat} :
    Agrees k t w (fun c next => c.dispose serial next) (fun c next => c.dispose serial next) := by
  cases hs : w.given? serial with
  | none => exact agrees_of_comes (comes_dispose_of_none hs) (comes_dispose_of_none (w := w.lend k) hs) rfl
  | some s => exact agrees_of_comes (comes_dispose_of_some hs) (comes_dispose_of_some (w := w.lend k) hs) rfl

theorem agrees_rebind : Agrees k t w (fun c next => c.rebind h n x next) (fun c next => c.rebind h n x next) := by
  cases hm : w.find? h with
  | none =>
    refine (agrees_reply (w := w.bind h n) x).of_world (u := (w.bind h n).lend k) (fun control stack next => ?_)
      (fun control stack next => ?_) rfl
    · simp only [rebind, hm]
    · simp only [rebind, show (w.lend k).find? h = none from hm]
      rfl
  | some m =>
    refine (agrees_letGo (w := w.bind h n) (n := m) (x := x)).of_world (u := (w.bind h n).lend k)
      (fun control stack next => ?_) (fun control stack next => ?_) rfl
    · simp only [rebind, hm]
    · simp only [rebind, show (w.lend k).find? h = some m from hm]
      rfl

theorem agrees_create (hk : k < w.cells.length) :
    Agrees k t w (fun c next => c.create h next) (fun c next => c.create h next) := by
  have hfirst : (w.lend k).create.1 = w.create.1 := List.length_modify _ _ _
  refine (agrees_rebind (w := w.create.2) (h := h) (n := w.create.1) (x := .done)).of_world (u := (w.lend k).create.2)
    (fun control stack next => rfl) (fun control stack next => ?_) (World.lend_create hk)
  rw [← hfirst]
  rfl

theorem agrees_share : Agrees k t w (fun c next => (c.put n cell.addOwner).rebind h n .done next)
    (fun c next => (c.put n (cell.lent k n).addOwner).rebind h n .done next) :=
  (agrees_rebind (w := w.put n cell.addOwner)).of_world (fun _ _ _ => rfl) (fun _ _ _ => rfl)
    (World.lend_put_comm (f := Cell.addOwner) fun _ => rfl)

theorem agrees_hold :
    Agrees k t w (fun c next => c.hold n cell next) (fun c next => c.hold n (cell.lent k n) next) :=
  (agrees_rebind (w := { w with held := w.held + 1 }.put n cell.addOwner) (h := .own w.held) (n := n)
    (x := .held (.own w.held))).of_world (u := { w.lend k with held := w.held + 1 }.put n (cell.lent k n).addOwner)
    (fun _ _ _ => rfl) (fun _ _ _ => rfl)
    (World.lend_put_comm (w := { w with held := w.held + 1 }) (f := Cell.addOwner) fun _ => rfl)

theorem agrees_giveUp : Agrees k t w (fun c next => c.giveUp h n next) (fun c next => c.giveUp h n next) :=
  (agrees_letGo (w := w.unbind h)).of_world (fun _ _ _ => rfl) (fun _ _ _ => rfl) rfl

theorem agrees_withCell {act : CellId → Cell α → Act α}
    (hact : ∀ n cell, Agrees k t w (act n cell) (act n (cell.lent k n))) :
    Agrees k t w (fun c next => c.withCell h next fun n cell => act n cell c next)
      (fun c next => c.withCell h next fun n cell => act n cell c next) := by
  cases hc : w.cellOf? h with
  | none =>
    have hc' : (w.lend k).cellOf? h = none := by rw [World.cellOf?_lend, hc]; rfl
    refine (agrees_reply (w := w) .noHandle).of_world (u := w.lend k) (fun control stack next => ?_)
      (fun control stack next => ?_) rfl
    · simp only [withCell, hc]
    · simp only [withCell, hc']
  | some p =>
    obtain ⟨n, cell⟩ := p
    have hc' : (w.lend k).cellOf? h = some (n, cell.lent k n) := by rw [World.cellOf?_lend, hc]; rfl
    refine (hact n cell).of_world (u := w.lend k) (fun control stack next => ?_) (fun control stack next => ?_) rfl
    · simp only [withCell, hc]
    · simp only [withCell, hc']

/-- **A call does beside one more owner what it does without.** -/
theorem agrees_perform (hk : k < w.cells.length) (call : Call α (Program α)) :
    Agrees k t w (fun c next => c.perform next call) (fun c next => c.perform next call) := by
  cases call with
  | create h => exact agrees_create hk
  | share source target => exact agrees_withCell fun n cell => agrees_share
  | hold h => exact agrees_withCell fun n cell => agrees_hold
  | giveUp h => exact agrees_withCell fun n cell => agrees_giveUp
  | inspect h =>
    have hact : ∀ n (cell : Cell α), Agrees k t w (fun c next => c.reply (.glance cell.glance) next)
        (fun c next => c.reply (.glance (cell.lent k n).glance) next) := by
      intro n cell
      rw [Cell.glance_lent]
      exact agrees_reply _
    exact agrees_withCell hact
  | reserve h => exact agrees_withCell fun n cell => agrees_reserve
  | add h id v => exact agrees_withCell fun n cell => agrees_store
  | set h id v => exact agrees_withCell fun n cell => agrees_store
  | pop h id => exact agrees_withCell fun n cell => agrees_pop
  | get h id => exact agrees_withCell fun n cell => agrees_get
  | contains h id => exact agrees_withCell fun n cell => agrees_query
  | size h => exact agrees_withCell fun n cell => agrees_query
  | isEmpty h => exact agrees_withCell fun n cell => agrees_query
  | cursor h => exact agrees_withCell fun n cell => agrees_query
  | walk h visit => exact agrees_withCell fun n cell => agrees_walk
  | release ticket => exact agrees_release
  | dispose serial => exact agrees_dispose
  | shelve ticket =>
    exact ⟨(w.shelve ticket).2, .replies (.shelved w.shelf.size), fun _ _ _ => rfl, fun _ _ _ _ => rfl⟩
  | shelved number => exact ⟨w, .replies (.onShelf (w.shelved? number)), fun _ _ _ => rfl, fun _ _ _ _ => rfl⟩
  | unshelve number => exact ⟨w.unshelve number, .replies .done, fun _ _ _ => rfl, fun _ _ _ _ => rfl⟩

theorem comes_tearOn_of_missing {ahead : List SlotId} (hc : w.cells[n]? = none) :
    Comes t (.replies x) (fun c next => c.tearOn n ahead x next) w w :=
  fun control stack _ => tearOn_of_missing (c := ⟨w, t, control, stack⟩) hc

theorem comes_tearOn_of_none {ahead : List SlotId} (hc : w.cells[n]? = some cell)
    (hs : cell.registry.get? id = none) :
    Comes t (.clears n ahead x) (fun c next => c.tearOn n (id :: ahead) x next) w
      (w.put n (cell.withRegistry (cell.registry.remove id))) :=
  fun control stack _ => tearOn_of_none (c := ⟨w, t, control, stack⟩) hc hs

theorem comes_tearOn_of_value {ahead : List SlotId} {s : Stored α} (hc : w.cells[n]? = some cell)
    (hs : cell.registry.get? id = some s) :
    Comes t (.enters s.value.onDestroy (.tearing n ahead x)) (fun c next => c.tearOn n (id :: ahead) x next) w
      ((w.put n (cell.withRegistry (cell.registry.remove id))).log (.destroyed s.serial)) :=
  fun control stack _ => tearOn_of_value (c := ⟨w, t, control, stack⟩) hc hs

/-- **Clearing a cell goes on in the same way beside one more owner.** -/
theorem agrees_tearOn {ahead : List SlotId} :
    Agrees k t w (fun c next => c.tearOn n ahead x next) (fun c next => c.tearOn n ahead x next) := by
  cases hc : w.cells[n]? with
  | none =>
    have hc' : (w.lend k).cells[n]? = none := World.lend_of_none hc
    exact agrees_of_comes (comes_tearOn_of_missing hc) (comes_tearOn_of_missing hc') rfl
  | some cell =>
    cases ahead with
    | nil => exact ⟨w, .replies x, fun _ _ _ => rfl, fun _ _ _ _ => rfl⟩
    | cons id ahead =>
      have hc' : (w.lend k).cells[n]? = some (cell.lent k n) := World.lend_of_some hc
      have hregistry : (cell.lent k n).registry = cell.registry := Cell.registry_lent
      have hput : (w.lend k).put n ((cell.lent k n).withRegistry ((cell.lent k n).registry.remove id)) =
          (w.put n (cell.withRegistry (cell.registry.remove id))).lend k := by
        rw [hregistry]
        exact World.lend_put_comm (f := fun cell' => cell'.withRegistry (cell.registry.remove id)) fun _ => rfl
      cases hs : cell.registry.get? id with
      | none =>
        exact agrees_of_comes (comes_tearOn_of_none hc hs) (comes_tearOn_of_none hc' (hregistry ▸ hs)) hput
      | some s =>
        refine agrees_of_comes (comes_tearOn_of_value hc hs) (comes_tearOn_of_value hc' (hregistry ▸ hs)) ?_
        rw [hput]
        rfl

end Config

end SlotRegistry
