import SlotRegistry.Proofs.Machine.Books
/-!
# Pool — threads that take turns

A pool is one world with any number of strands, each a running thread with its own stack of calls.  A turn is one step
of one strand; a strand that would have to wait for a lock does not move.  The accounts of Books hold for all strands
together (`Reaches.kept`), every thread belongs to one strand, and a call that was turned away stands above the call of
its own thread that turned it away.
-/
namespace SlotRegistry

variable {α : Type}

/-- A running thread with what it does next and its stack of calls. -/
structure Strand (α : Type) where
  thread : Thread
  control : Control α
  stack : List (Frame α)

/-- One world, and the strands that share it. -/
structure Pool (α : Type) where
  world : World α
  strands : List (Strand α)

def Config.strand (c : Config α) : Strand α := ⟨c.thread, c.control, c.stack⟩

/-- The configuration of a strand in a world. -/
def Strand.within (s : Strand α) (w : World α) : Config α := ⟨w, s.thread, s.control, s.stack⟩

def Config.isBlocked (c : Config α) : Bool :=
  match c.control with
  | .blocked => true
  | _ => false

namespace Pool

/-- Each program about to run on a thread of its own, nothing shared yet. -/
def start (v : Verbosity) (programs : List (Program α)) : Pool α :=
  ⟨{ World.empty v with threads := programs.length }, programs.mapIdx fun i p => ⟨i, .running p, []⟩⟩

/-- A turn of the `i`-th strand.  It passes when the strand would have to wait. -/
def step (P : Pool α) (i : Nat) : Pool α :=
  match P.strands[i]? with
  | none => P
  | some s =>
    let c := (s.within P.world).step
    if c.isBlocked then P else ⟨c.world, P.strands.set i c.strand⟩

/-- One pool leads to another, whoever takes the turns. -/
inductive Reaches : Pool α → Pool α → Prop
  | refl (P : Pool α) : Reaches P P
  | tail {P Q : Pool α} (h : Reaches P Q) (i : Nat) : Reaches P (Q.step i)

end Pool

/-! ### The threads of a strand -/

/-- The running thread and the threads that wait for it, below it. -/
def threadsOf : Thread → List (Frame α) → List Thread
  | t, [] => [t]
  | t, .call _ _ :: rest => threadsOf t rest
  | t, .join u _ :: rest => t :: threadsOf u rest

theorem mem_threadsOf_of_unfinished : ∀ (t : Thread) (stack : List (Frame α)) {u : Thread} {s : Scope α},
    (u, s) ∈ unfinished t stack → u ∈ threadsOf t stack
  | _, [], _, _, h => by cases h
  | t, .call _ _ :: rest, u, s, h => by
    rcases List.mem_cons.1 h with heq | hmem
    · cases heq
      exact self_mem_threadsOf t rest
    · exact mem_threadsOf_of_unfinished t rest hmem
  | t, .join v _ :: rest, u, s, h => List.mem_cons_of_mem _ (mem_threadsOf_of_unfinished v rest h)
where
  self_mem_threadsOf : ∀ (t : Thread) (stack : List (Frame α)), t ∈ threadsOf t stack
    | _, [] => List.mem_cons_self
    | t, .call _ _ :: rest => self_mem_threadsOf t rest
    | _, .join _ _ :: _ => List.mem_cons_self

/-- Every call that was turned away stands above a call of its thread that is inside the cell. -/
def Grounded : Thread → List (Frame α) → Prop
  | _, [] => True
  | t, .call s _ :: rest => (∀ n, s = .bouncing n → t ∈ entered (stakesAt n t rest)) ∧ Grounded t rest
  | _, .join u _ :: rest => Grounded u rest

namespace Ledger

/-- The accounts of one strand are in order, beside others that have the threads `others` and hold `out`. -/
structure Kept (out : CellId → List (Thread × Stake)) (others : List Thread) (L : Ledger α) : Prop where
  sound : Sound List.Perm out L
  distinct : (threadsOf L.thread L.stack ++ others).Nodup
  started : ∀ t ∈ threadsOf L.thread L.stack ++ others, t < L.threads
  grounded : Grounded L.thread L.stack

section

variable {out : CellId → List (Thread × Stake)} {others : List Thread} {L L' : Ledger α} {n : CellId}

theorem Kept.not_mem_others (hL : Kept out others L) : L.thread ∉ others := by
  intro h
  have hself : L.thread ∈ threadsOf L.thread L.stack := mem_threadsOf_of_unfinished.self_mem_threadsOf _ _
  exact (List.nodup_append.1 hL.distinct).2.2 _ hself _ h rfl

/-- **Who is registered with a cell is inside through a call of its own strand.** -/
theorem Kept.inside_iff (hout : ∀ n t k, (t, k) ∈ out n → t ∈ others) (hL : Kept out others L) :
    L.thread ∈ (L.cellAt n).detector.inside ↔ L.thread ∈ entered (stakesAt n L.thread L.stack) := by
  rw [(hL.sound.tallies n).inside.mem_iff, mem_entered, mem_entered]
  constructor
  · rintro ⟨k, hk, hmem⟩
    rcases List.mem_append.1 hmem with h | h
    · exact ⟨k, hk, h⟩
    · exact absurd (hout _ _ _ h) hL.not_mem_others
  · rintro ⟨k, hk, hmem⟩
    exact ⟨k, hk, List.mem_append_left _ hmem⟩

/-- What a move does to the threads: nothing, or a new one starts, or the running one ends. -/
theorem Move.threads (h : Move L L') :
    (L'.threads = L.threads ∧ threadsOf L'.thread L'.stack = threadsOf L.thread L.stack) ∨
    (L'.threads = L.threads + 1 ∧ threadsOf L'.thread L'.stack = L.threads :: threadsOf L.thread L.stack) ∨
    (L'.threads = L.threads ∧ threadsOf L.thread L.stack = L.thread :: threadsOf L'.thread L'.stack) := by
  cases h with
  | spawn goOn => exact .inr (.inl ⟨rfl, rfl⟩)
  | join top => exact .inr (.inr ⟨rfl, by rw [top]; rfl⟩)
  | revisit next' top => exact .inl ⟨rfl, by rw [top]; rfl⟩
  | endReading next' top => exact .inl ⟨rfl, by rw [top]; rfl⟩
  | endWriting next' top => exact .inl ⟨rfl, by rw [top]; rfl⟩
  | letGo top => exact .inl ⟨rfl, by rw [top]; rfl⟩
  | close top => exact .inl ⟨rfl, by rw [top]; rfl⟩
  | forget top => exact .inl ⟨rfl, by rw [top]; rfl⟩
  | lost top => exact .inl ⟨rfl, by rw [top]; rfl⟩
  | pass top => exact .inl ⟨rfl, by rw [top]; rfl⟩
  | endTearing top => exact .inl ⟨rfl, by rw [top]; rfl⟩
  | bind h top =>
    refine .inl ⟨rfl, ?_⟩
    rw [top]
    dsimp only
    split <;> rfl
  | _ => exact .inl ⟨rfl, rfl⟩

theorem Move.distinct (h : Move L L') (distinct : (threadsOf L.thread L.stack ++ others).Nodup)
    (started : ∀ t ∈ threadsOf L.thread L.stack ++ others, t < L.threads) :
    (threadsOf L'.thread L'.stack ++ others).Nodup ∧
      (∀ t ∈ threadsOf L'.thread L'.stack ++ others, t < L'.threads) ∧ L.threads ≤ L'.threads := by
  rcases h.threads with ⟨hn, ht⟩ | ⟨hn, ht⟩ | ⟨hn, ht⟩
  · rw [hn, ht]
    exact ⟨distinct, started, Nat.le_refl _⟩
  · rw [hn, ht, List.cons_append]
    refine ⟨List.nodup_cons.2 ⟨fun hmem => ?_, distinct⟩, fun t hmem => ?_, Nat.le_succ _⟩
    · exact Nat.lt_irrefl _ (started _ hmem)
    · rcases List.mem_cons.1 hmem with rfl | hmem
      · exact Nat.lt_succ_self _
      · exact Nat.lt_succ_of_lt (started t hmem)
  · rw [ht, List.cons_append] at distinct started
    rw [hn]
    exact ⟨(List.nodup_cons.1 distinct).2, fun t hmem => started t (List.mem_cons_of_mem _ hmem), Nat.le_refl _⟩

theorem grounded_call {t : Thread} {s : Scope α} {next : Outcome α → Program α} {stack : List (Frame α)}
    (hs : ∀ n, s ≠ .bouncing n) (h : Grounded t stack) : Grounded t (.call s next :: stack) :=
  ⟨fun n hn => absurd hn (hs n), h⟩

theorem not_bouncing_of_stake {s : Scope α} {k : Stake} (hk : k ≠ .owning) (stake : s.stake = some (n, k)) (m : CellId) :
    s ≠ .bouncing m := by
  rintro rfl
  cases stake
  exact hk rfl

theorem Move.grounded (h : Move L L') (hout : ∀ n t k, (t, k) ∈ out n → t ∈ others) (hL : Kept out others L) :
    Grounded L'.thread L'.stack := by
  have hg := hL.grounded
  cases h with
  | still => exact hg
  | update => exact hg
  | beginReading next found outside lock used stake => exact grounded_call (not_bouncing_of_stake (by decide) stake) hg
  | beginWriting next found outside free used stake => exact grounded_call (not_bouncing_of_stake (by decide) stake) hg
  | bounce next found inside used =>
    refine ⟨fun m hm => ?_, hg⟩
    cases hm
    exact (hL.inside_iff hout).1 (by rw [cellAt_of_getElem? found]; exact inside)
  | own => exact grounded_call (fun _ h => by cases h) hg
  | revisit next' top stake stake' =>
    rw [top] at hg
    exact grounded_call (not_bouncing_of_stake (by decide) stake') hg.2
  | endReading next' top =>
    rw [top] at hg
    exact grounded_call (fun _ h => by cases h) hg.2
  | endWriting next' top =>
    rw [top] at hg
    exact grounded_call (fun _ h => by cases h) hg.2
  | letGo top => rw [top] at hg; exact hg.2
  | close top => rw [top] at hg; exact hg.2
  | forget top => rw [top] at hg; exact hg.2
  | lost top => rw [top] at hg; exact hg.2
  | dispose => exact grounded_call (fun _ h => by cases h) hg
  | pass top => rw [top] at hg; exact hg.2
  | spawn => exact hg
  | join top => rw [top] at hg; exact hg
  | create => exact grounded_call (fun _ h => by cases h) hg
  | bind h top =>
    rw [top] at hg
    dsimp only
    split
    · exact hg.2
    · exact grounded_call (fun _ h => by cases h) hg.2
  | unbind => exact grounded_call (fun _ h => by cases h) hg
  | tear => exact hg
  | beginTearing => exact grounded_call (fun _ h => by cases h) hg
  | endTearing top => rw [top] at hg; exact hg.2

theorem Move.kept (h : Move L L') (hout : ∀ n t k, (t, k) ∈ out n → t ∈ others) (hL : Kept out others L) :
    Kept out others L' := by
  obtain ⟨hd, hs, -⟩ := h.distinct hL.distinct hL.started
  exact ⟨h.sound tracks_perm hL.sound, hd, hs, h.grounded hout hL⟩

theorem Moves.kept (h : Moves L L') (hout : ∀ n t k, (t, k) ∈ out n → t ∈ others) (hL : Kept out others L) :
    Kept out others L' ∧ L.threads ≤ L'.threads := by
  induction h with
  | refl => exact ⟨hL, Nat.le_refl _⟩
  | tail _ hmove ih =>
    obtain ⟨-, -, hle⟩ := hmove.distinct ih.1.distinct ih.1.started
    exact ⟨hmove.kept hout ih.1, Nat.le_trans ih.2 hle⟩

end

end Ledger

/-! ### All strands together -/

namespace Strand

/-- What the unfinished calls of a strand hold of a cell. -/
def stakes (n : CellId) (s : Strand α) : List (Thread × Stake) := stakesAt n s.thread s.stack

def threads (s : Strand α) : List Thread := threadsOf s.thread s.stack

end Strand

namespace Pool

open Ledger (Dead)

/-- The cells and handles of a pool, without any strand. -/
def ledger (P : Pool α) : Ledger α := ⟨P.world.cells, P.world.handles, 0, P.world.threads, [], none⟩

/-- **The accounts of all strands are in order together.** -/
structure Kept (P : Pool α) : Prop where
  tallies : ∀ n, (P.ledger.cellAt n).Tallies List.Perm (P.ledger.boundTo n) (P.strands.flatMap (Strand.stakes n))
  torn : ∀ s ∈ P.strands, ∀ n, s.control.torn = some n → P.ledger.Dead n
  clearing : ∀ s ∈ P.strands, ∀ t n ahead x, (t, Scope.tearing n ahead x) ∈ unfinished s.thread s.stack →
    P.ledger.Dead n
  distinct : (P.strands.flatMap Strand.threads).Nodup
  started : ∀ t ∈ P.strands.flatMap Strand.threads, t < P.world.threads
  grounded : ∀ s ∈ P.strands, Grounded s.thread s.stack

/-- What the strands of a list hold. -/
def heldBy (strands : List (Strand α)) (n : CellId) : List (Thread × Stake) := strands.flatMap (Strand.stakes n)

theorem mem_threads_of_heldBy {strands : List (Strand α)} {n : CellId} {t : Thread} {k : Stake}
    (h : (t, k) ∈ heldBy strands n) : t ∈ strands.flatMap Strand.threads := by
  obtain ⟨s, hs, hmem⟩ := List.mem_flatMap.1 h
  obtain ⟨scope, hscope, -⟩ := mem_stakesAt.1 hmem
  exact List.mem_flatMap.2 ⟨s, hs, mem_threadsOf_of_unfinished _ _ hscope⟩

theorem flatMap_middle {β : Type} (f : Strand α → List β) (pre post : List (Strand α)) (s : Strand α) :
    ((pre ++ s :: post).flatMap f).Perm (f s ++ (pre ++ post).flatMap f) := by
  simp only [List.flatMap_append, List.flatMap_cons]
  rw [← List.append_assoc, ← List.append_assoc]
  exact List.Perm.append_right _ List.perm_append_comm

theorem Tallies.perm {cell : Cell α} {bound : Nat} {ks ks' : List (Thread × Stake)}
    (h : cell.Tallies List.Perm bound ks) (hp : ks.Perm ks') : cell.Tallies List.Perm bound ks' :=
  ⟨h.inside.trans ((hp.filter _).map _), h.readers.trans ((hp.filter _).map _), h.writers.trans ((hp.filter _).map _),
    by rw [← hp.length_eq]; exact h.owners⟩

theorem Kept.strand {P : Pool α} (hP : P.Kept) {pre post : List (Strand α)} {s : Strand α}
    (h : P.strands = pre ++ s :: post) :
    Ledger.Kept (heldBy (pre ++ post)) ((pre ++ post).flatMap Strand.threads) (s.within P.world).ledger := by
  have hs : s ∈ P.strands := by rw [h]; simp
  have hd := hP.distinct
  have hst := hP.started
  rw [h] at hd hst
  have hp := flatMap_middle Strand.threads pre post s
  refine ⟨⟨fun n => ?_, fun n ht => ?_, fun t n ahead x hmem => ?_⟩, hp.nodup_iff.1 hd,
    fun t ht => hst t (hp.mem_iff.2 ht), hP.grounded s hs⟩
  · have ht := hP.tallies n
    rw [h] at ht
    exact Tallies.perm ht (flatMap_middle _ pre post s)
  · exact hP.torn s hs n ht
  · exact hP.clearing s hs t n ahead x hmem

theorem exists_middle {strands : List (Strand α)} {i : Nat} {s : Strand α} (h : strands[i]? = some s) :
    ∃ pre post, strands = pre ++ s :: post ∧ ∀ s', strands.set i s' = pre ++ s' :: post := by
  obtain ⟨hi, rfl⟩ := List.getElem?_eq_some_iff.1 h
  refine ⟨strands.take i, strands.drop (i + 1), ?_, fun s' => List.set_eq_take_append_cons_drop.trans (if_pos hi)⟩
  rw [List.getElem_cons_drop, List.take_append_drop]

theorem kept_of_strand {P : Pool α} (hP : P.Kept) {pre post : List (Strand α)} {s : Strand α}
    (h : P.strands = pre ++ s :: post) {c : Config α} (hm : Ledger.Moves (s.within P.world).ledger c.ledger) :
    Kept ⟨c.world, pre ++ c.strand :: post⟩ := by
  have hk := hP.strand h
  obtain ⟨hk', hle⟩ := hm.kept (fun _ _ _ hmem => mem_threads_of_heldBy hmem) hk
  have hdead : ∀ n, P.ledger.Dead n → Dead (ledger ⟨c.world, pre ++ c.strand :: post⟩) n :=
    fun n hd => (Ledger.Moves.dead tracks_perm hm hk.sound hd).of_cells rfl
  have hother : ∀ s' ∈ pre ++ c.strand :: post, s' = c.strand ∨ s' ∈ P.strands := by
    intro s' hs'
    rw [h]
    rcases List.mem_append.1 hs' with h₁ | h₂
    · exact .inr (List.mem_append_left _ h₁)
    · rcases List.mem_cons.1 h₂ with rfl | h₂
      · exact .inl rfl
      · exact .inr (List.mem_append_right _ (List.mem_cons_of_mem _ h₂))
  have hp := flatMap_middle Strand.threads pre post c.strand
  refine ⟨fun n => ?_, fun s' hs' n ht => ?_, fun s' hs' t n ahead x hmem => ?_, hp.nodup_iff.2 hk'.distinct,
    fun t ht => hk'.started t (hp.mem_iff.1 ht), fun s' hs' => ?_⟩
  · exact Tallies.perm (hk'.sound.tallies n) (flatMap_middle (Strand.stakes n) pre post c.strand).symm
  · rcases hother s' hs' with rfl | hs'
    · exact hk'.sound.torn n ht
    · exact hdead n (hP.torn s' hs' n ht)
  · rcases hother s' hs' with rfl | hs'
    · exact hk'.sound.clearing t n ahead x hmem
    · exact hdead n (hP.clearing s' hs' t n ahead x hmem)
  · rcases hother s' hs' with rfl | hs'
    · exact hk'.grounded
    · exact hP.grounded s' hs'

/-- **A turn keeps the accounts.** -/
theorem step_kept {P : Pool α} (hP : P.Kept) (i : Nat) : (P.step i).Kept := by
  unfold step
  split
  · exact hP
  · rename_i s hs
    obtain ⟨pre, post, h, hset⟩ := exists_middle hs
    dsimp only
    split
    · exact hP
    · rw [hset]
      exact kept_of_strand hP h (Config.step_moves _)

theorem start_kept (v : Verbosity) (programs : List (Program α)) : (start v programs).Kept := by
  have hstrand : ∀ s ∈ (start v programs).strands, ∃ i p, i < programs.length ∧ s = ⟨i, .running p, []⟩ := by
    intro s hs
    obtain ⟨i, hi, rfl⟩ := List.mem_mapIdx.1 hs
    exact ⟨i, programs[i], hi, rfl⟩
  refine ⟨fun n => ?_, fun s hs n ht => ?_, fun s hs t n ahead x hmem => ?_, ?_, fun t ht => ?_, fun s hs => ?_⟩
  · have hnil : (start v programs).strands.flatMap (Strand.stakes n) = [] := by
      rw [List.flatMap_eq_nil_iff]
      intro s hs
      obtain ⟨i, p, -, rfl⟩ := hstrand s hs
      rfl
    rw [hnil]
    exact ⟨.nil, .nil, .nil, Nat.le_refl 0⟩
  · obtain ⟨i, p, -, rfl⟩ := hstrand s hs
    cases ht
  · obtain ⟨i, p, -, rfl⟩ := hstrand s hs
    cases hmem
  · have hrange : (start v programs).strands.flatMap Strand.threads = List.range programs.length := by
      have hone : (start v programs).strands.map Strand.threads = (List.range programs.length).map (fun t => [t]) :=
        List.ext_getElem (by simp [start]) (fun i h₁ h₂ => by simp [start, Strand.threads, threadsOf])
      rw [List.flatMap_def, hone, ← List.flatMap_def, List.flatMap_singleton']
    rw [hrange]
    exact List.nodup_range
  · obtain ⟨s, hs, hmem⟩ := List.mem_flatMap.1 ht
    obtain ⟨i, p, hi, rfl⟩ := hstrand s hs
    rw [List.mem_singleton.1 hmem]
    exact hi
  · obtain ⟨i, p, -, rfl⟩ := hstrand s hs
    trivial

theorem Reaches.kept {P Q : Pool α} (h : Reaches P Q) (hP : P.Kept) : Q.Kept := by
  induction h with
  | refl => exact hP
  | tail _ i ih => exact step_kept ih i

end Pool

end SlotRegistry
