import Mathlib.Data.Finset.Basic
import Mathlib.Data.List.Nodup
import SlotRegistry.Detector.Floor
/-!
# Guards — a floor is a set of pairs of a thread and a detector

However threads enter detectors and give their guards up, in any order, the roster of each detector has the threads that
hold a guard on it, each once (`Agrees`).  So the floor answers as the set of pairs would (`floor_answers_as_pairs`):
who holds a guard is refused another one, and who gives it up may enter again, and nobody else notices.
-/
namespace SlotRegistry
namespace Floor

/-- Threads enter and leave, one after the other: what came of it each time, and what is there in the end. -/
def perform {σ : Type} (move : σ → Thread → Nat → Move → Result × σ) (s : σ) :
    List (Thread × Nat × Move) → List Result × σ
  | [] => ([], s)
  | (t, n, m) :: rest =>
    let (x, s) := move s t n m
    let (xs, last) := perform move s rest
    (x :: xs, last)

/-- The reference: the pairs of a thread and a detector on which it holds a guard, with `count` detectors. -/
def movePairs (count : Nat) (pairs : Finset (Thread × Nat)) (t : Thread) (n : Nat) :
    Move → Result × Finset (Thread × Nat)
  | .enter => if n < count ∧ (t, n) ∉ pairs then (.done, insert (t, n) pairs) else (.refused, pairs)
  | .exit => if (t, n) ∈ pairs then (.done, pairs.erase (t, n)) else (.notHeld, pairs)

/-! ### Who holds a guard on a detector -/

/-- The threads that hold a guard on the detector `n`. -/
def holders (n : Nat) (guards : List (Thread × Nat)) : List Thread := (guards.filter fun g => g.2 = n).map Prod.fst

variable {guards others : List (Thread × Nat)} {t u : Thread} {n m : Nat}

theorem mem_holders : t ∈ holders n guards ↔ (t, n) ∈ guards := by
  simp [holders]

theorem nodup_holders (h : guards.Nodup) : (holders n guards).Nodup := by
  refine List.Nodup.map_on (fun a ha b hb hab => ?_) (h.filter _)
  have ha := of_decide_eq_true (List.mem_filter.1 ha).2
  have hb := of_decide_eq_true (List.mem_filter.1 hb).2
  exact Prod.ext hab (ha.trans hb.symm)

theorem holders_perm (h : guards.Perm others) : (holders n guards).Perm (holders n others) := (h.filter _).map _

theorem holders_cons_self : holders n ((t, n) :: guards) = t :: holders n guards := by simp [holders]

theorem holders_cons_of_ne (h : m ≠ n) : holders n ((t, m) :: guards) = holders n guards := by simp [holders, h]

theorem holders_erase_self (h : (t, n) ∈ guards) :
    (holders n (guards.erase (t, n))).Perm ((holders n guards).erase t) := by
  have hperm := holders_perm (n := n) (List.perm_cons_erase h)
  rw [holders_cons_self] at hperm
  exact (List.cons_perm_iff_perm_erase.1 hperm.symm).2

theorem holders_erase_of_ne (h : (t, m) ∈ guards) (hne : m ≠ n) :
    (holders n (guards.erase (t, m))).Perm (holders n guards) := by
  have hperm := holders_perm (n := n) (List.perm_cons_erase h)
  rw [holders_cons_of_ne hne] at hperm
  exact hperm.symm

/-! ### A floor and its pairs -/

/-- A floor agrees with a set of pairs: its guards are these, and each roster has the threads that hold a guard on its
detector. -/
structure Agrees (count : Nat) (f : Floor) (pairs : Finset (Thread × Nat)) : Prop where
  length : f.detectors.length = count
  nodup : f.guards.Nodup
  mem_iff : ∀ g, g ∈ f.guards ↔ g ∈ pairs
  lt : ∀ g ∈ f.guards, g.2 < count
  roster : ∀ (n : Nat) (r : Roster), f.detectors[n]? = some r → r.Matches ⟨holders n f.guards⟩

variable {count : Nat} {f : Floor} {pairs : Finset (Thread × Nat)} {r : Roster}

theorem agrees_fresh (count : Nat) : Agrees count (fresh count) ∅ := by
  refine ⟨List.length_replicate, .nil, fun g => by simp [fresh], nofun, fun n r hr => ?_⟩
  rw [fresh, List.getElem?_replicate] at hr
  split at hr
  · cases hr
    exact Roster.matches_empty
  · cases hr

section Agrees

variable (h : Agrees count f pairs)
include h

theorem Agrees.getElem?_of_lt (hn : n < count) : ∃ r, f.detectors[n]? = some r :=
  ⟨_, List.getElem?_eq_getElem (h.length ▸ hn)⟩

theorem Agrees.lt_of_getElem? (hr : f.detectors[n]? = some r) : n < count :=
  h.length ▸ (List.getElem?_eq_some_iff.1 hr).1

theorem Agrees.mem_roster (hr : f.detectors[n]? = some r) : t ∈ r.threads ↔ (t, n) ∈ pairs :=
  (h.roster n r hr).mem_iff.trans (mem_holders.trans (h.mem_iff _))

theorem Agrees.nodup_roster (hr : f.detectors[n]? = some r) : r.threads.toList.Nodup :=
  (List.Perm.nodup_iff (h.roster n r hr)).2 (nodup_holders h.nodup)

/-- A thread without a guard is let in. -/
theorem Agrees.enter_of_not_mem (hn : n < count) (ht : (t, n) ∉ pairs) :
    (f.enter t n).1 = .done ∧ Agrees count (f.enter t n).2 (insert (t, n) pairs) := by
  obtain ⟨r, hr⟩ := h.getElem?_of_lt hn
  have hg : (t, n) ∉ f.guards := fun hg => ht ((h.mem_iff _).1 hg)
  have hrel := (h.roster n r hr).enter? t
  rw [Detector.enter?, if_neg (fun hmem => hg (mem_holders.1 hmem))] at hrel
  cases hs : r.enter? t with
  | none =>
    rw [hs] at hrel
    cases hrel
  | some s =>
    rw [hs] at hrel
    cases hrel with
    | some hmatch =>
      have heq : f.enter t n = (.done, ⟨f.detectors.set n s, (t, n) :: f.guards⟩) := by rw [enter, hr]; simp only [hs]
      rw [heq]
      refine ⟨rfl, List.length_set.trans h.length, List.nodup_cons.2 ⟨hg, h.nodup⟩, fun g => ?_, fun g hmem => ?_,
        fun m q hq => ?_⟩
      · rw [List.mem_cons, Finset.mem_insert, h.mem_iff]
      · rcases List.mem_cons.1 hmem with rfl | hmem
        · exact hn
        · exact h.lt g hmem
      · simp only [List.getElem?_set] at hq
        split at hq
        · rename_i hnm
          subst hnm
          rw [if_pos (h.length ▸ hn)] at hq
          cases hq
          rw [holders_cons_self]
          exact hmatch
        · rename_i hnm
          rw [holders_cons_of_ne hnm]
          exact h.roster m q hq

/-- A thread with a guard is refused, and nothing changes; the same where there is no detector. -/
theorem Agrees.enter_of_refused (ht : ¬ (n < count ∧ (t, n) ∉ pairs)) : f.enter t n = (.refused, f) := by
  unfold enter
  split
  · rfl
  · rename_i r hr
    have hmem : (t, n) ∈ pairs := by
      by_contra hno
      exact ht ⟨h.lt_of_getElem? hr, hno⟩
    have hin : t ∈ holders n f.guards := mem_holders.2 ((h.mem_iff _).2 hmem)
    have hrel := (h.roster n r hr).enter? t
    rw [Detector.enter?, if_pos hin] at hrel
    cases hs : r.enter? t with
    | none => rfl
    | some s =>
      rw [hs] at hrel
      cases hrel

theorem Agrees.exit_of_mem (ht : (t, n) ∈ pairs) :
    (f.exit t n).1 = .done ∧ Agrees count (f.exit t n).2 (pairs.erase (t, n)) := by
  have hg : (t, n) ∈ f.guards := (h.mem_iff _).2 ht
  rw [exit, if_pos hg]
  refine ⟨rfl, (List.length_modify ..).trans h.length, h.nodup.erase _, fun g => ?_, fun g hmem => ?_, fun m q hq => ?_⟩
  · rw [h.nodup.mem_erase_iff, Finset.mem_erase, h.mem_iff]
  · exact h.lt g (List.mem_of_mem_erase hmem)
  · rw [List.getElem?_modify] at hq
    obtain ⟨r, hr, rfl⟩ := Option.map_eq_some_iff.1 hq
    split
    · rename_i hnm
      subst hnm
      exact ((h.roster n r hr).leave t).trans (holders_erase_self hg).symm
    · rename_i hnm
      exact List.Perm.trans (h.roster m r hr) (holders_erase_of_ne hg hnm).symm

theorem Agrees.exit_of_not_mem (ht : (t, n) ∉ pairs) : f.exit t n = (.notHeld, f) :=
  if_neg fun hg => ht ((h.mem_iff _).1 hg)

/-- **One move comes to the same for both**, and they still agree. -/
theorem Agrees.move (t : Thread) (n : Nat) (m : Move) :
    (f.move t n m).1 = (movePairs count pairs t n m).1 ∧
      Agrees count (f.move t n m).2 (movePairs count pairs t n m).2 := by
  cases m with
  | enter =>
    rw [Floor.move, movePairs]
    split
    · rename_i ht
      exact h.enter_of_not_mem ht.1 ht.2
    · rename_i ht
      rw [h.enter_of_refused ht]
      exact ⟨rfl, h⟩
  | exit =>
    rw [Floor.move, movePairs]
    split
    · rename_i ht
      exact h.exit_of_mem ht
    · rename_i ht
      rw [h.exit_of_not_mem ht]
      exact ⟨rfl, h⟩

end Agrees

theorem Agrees.perform : ∀ (moves : List (Thread × Nat × Move)) {f : Floor} {pairs : Finset (Thread × Nat)},
    Agrees count f pairs →
      (perform Floor.move f moves).1 = (perform (movePairs count) pairs moves).1 ∧
        Agrees count (perform Floor.move f moves).2 (perform (movePairs count) pairs moves).2
  | [], _, _, h => ⟨rfl, h⟩
  | (t, n, m) :: rest, f, pairs, h => by
    obtain ⟨hx, hm⟩ := h.move t n m
    obtain ⟨hxs, hrest⟩ := Agrees.perform rest hm
    exact ⟨congrArg₂ List.cons hx hxs, hrest⟩

/-- **A floor answers as the set of pairs does.**  However the threads enter and leave, each roster has exactly the
threads that hold a guard on its detector, each once; a thread is let in exactly when it holds none there, and a
refused entry changes nothing.  Who gives a guard up may enter again, and leaves every other thread where it is. -/
theorem floor_answers_as_pairs (count : Nat) (moves : List (Thread × Nat × Move)) :
    let f := (Floor.perform Floor.move (fresh count) moves).2
    let pairs := (Floor.perform (movePairs count) ∅ moves).2
    (Floor.perform Floor.move (fresh count) moves).1 = (Floor.perform (movePairs count) ∅ moves).1 ∧
    f.detectors.length = count ∧ (f.guards.Nodup ∧ ∀ g, g ∈ f.guards ↔ g ∈ pairs) ∧
    (∀ (n : Nat) (r : Roster), f.detectors[n]? = some r →
      r.threads.toList.Nodup ∧ ∀ t, t ∈ r.threads ↔ (t, n) ∈ pairs) ∧
    (∀ t n, n < count → ((f.enter t n).1 = .done ↔ (t, n) ∉ pairs)) ∧
    (∀ t n, (f.enter t n).1 ≠ .done → (f.enter t n).2 = f) ∧
    ∀ t n, (t, n) ∈ pairs → (f.exit t n).1 = .done ∧ ((f.exit t n).2.enter t n).1 = .done ∧
      ∀ (m : Nat) (r : Roster), f.detectors[m]? = some r → ∃ s, (f.exit t n).2.detectors[m]? = some s ∧
        s.threads.toList.Nodup ∧ ∀ u, u ∈ s.threads ↔ u ∈ r.threads ∧ ¬ (u = t ∧ m = n) := by
  intro f pairs
  obtain ⟨hresults, h⟩ := Agrees.perform moves (agrees_fresh count)
  refine ⟨hresults, h.length, ⟨h.nodup, h.mem_iff⟩, fun n r hr => ⟨h.nodup_roster hr, fun t => h.mem_roster hr⟩,
    fun t n hn => ?_, fun t n hx => ?_, fun t n ht => ?_⟩
  · by_cases ht : (t, n) ∈ pairs
    · rw [h.enter_of_refused (fun hno => hno.2 ht)]
      exact iff_of_false nofun (fun hno => hno ht)
    · exact iff_of_true (h.enter_of_not_mem hn ht).1 ht
  · by_cases ht : n < count ∧ (t, n) ∉ pairs
    · exact absurd (h.enter_of_not_mem ht.1 ht.2).1 hx
    · rw [h.enter_of_refused ht]
  · obtain ⟨hx, hexit⟩ := h.exit_of_mem ht
    have hn : n < count := h.lt _ ((h.mem_iff _).2 ht)
    refine ⟨hx, (hexit.enter_of_not_mem hn (Finset.notMem_erase _ _)).1, fun m r hr => ?_⟩
    obtain ⟨s, hs⟩ := hexit.getElem?_of_lt (h.lt_of_getElem? hr)
    refine ⟨s, hs, hexit.nodup_roster hs, fun u => ?_⟩
    rw [hexit.mem_roster hs, h.mem_roster hr, Finset.mem_erase, and_comm, ne_eq, Prod.mk.injEq]

end Floor

end SlotRegistry
