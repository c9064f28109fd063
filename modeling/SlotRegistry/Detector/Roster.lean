import SlotRegistry.Detector
/-!
# Roster — the threads inside, in an array

A roster keeps the threads that are inside, and the newest comes last.  Who leaves is looked for from the front, and the
last thread takes the place that falls free.  So the order of the others may change; who they are does not
(`toList_leave`).  A roster and a detector with the same threads inside therefore stay so (`Matches`).
-/
namespace SlotRegistry

structure Roster where
  threads : Array Thread
  deriving DecidableEq, Repr

namespace Roster

def empty : Roster := ⟨#[]⟩

/-- The roster with a thread inside, none when it is inside already. -/
def enter? (r : Roster) (t : Thread) : Option Roster :=
  if t ∈ r.threads then none else some ⟨r.threads.push t⟩

/-- The thread at a place goes, and the last one takes the place. -/
def vacate (r : Roster) (i : Fin r.threads.size) : Roster :=
  ⟨(r.threads.swap i (r.threads.size - 1) i.isLt (Nat.sub_one_lt_of_lt i.isLt)).pop⟩

/-- A thread leaves; nothing happens when it is not inside. -/
def leave (r : Roster) (t : Thread) : Roster :=
  match r.threads.finIdxOf? t with
  | none => r
  | some i => r.vacate i

variable {r : Roster} {t : Thread}

/-- Only the thread at the place goes. -/
theorem toList_vacate (i : Fin r.threads.size) :
    (r.threads[i] :: (r.vacate i).threads.toList).Perm r.threads.toList := by
  have hlast : r.threads.size - 1 < r.threads.size := Nat.sub_one_lt_of_lt i.isLt
  have hperm : (r.threads.swap i (r.threads.size - 1) i.isLt hlast).toList.Perm r.threads.toList :=
    (Array.swap_perm i.isLt hlast).toList
  -- after the exchange the thread that goes stands last
  have hne : (r.threads.swap i (r.threads.size - 1) i.isLt hlast).toList ≠ [] :=
    List.ne_nil_of_length_pos (by rw [Array.length_toList, Array.size_swap]; omega)
  have hback : (r.threads.swap i (r.threads.size - 1) i.isLt hlast).toList.getLast hne = r.threads[i] := by
    rw [Array.getLast_toList, Array.back_eq_getElem]
    simp only [Array.size_swap, Array.getElem_swap_right, Fin.getElem_fin]
  rw [← List.dropLast_concat_getLast hne, hback, ← Array.toList_pop] at hperm
  exact List.perm_append_comm.trans hperm

/-- **A thread that leaves is the only one to go**, whatever places the others get. -/
theorem toList_leave (r : Roster) (t : Thread) : (r.leave t).threads.toList.Perm (r.threads.toList.erase t) := by
  unfold leave
  split
  · rename_i h
    rw [List.erase_of_not_mem (fun ht => Array.finIdxOf?_eq_none_iff.1 h (Array.mem_toList_iff.1 ht))]
  · rename_i i h
    obtain ⟨hi, -⟩ := Array.finIdxOf?_eq_some_iff.1 h
    have hperm := toList_vacate i
    rw [hi] at hperm
    exact (List.cons_perm_iff_perm_erase.1 hperm).2

example : (Roster.mk #[4, 1, 7, 3]).leave 1 = ⟨#[4, 3, 7]⟩ := by cbv

/-! ### A roster beside a detector -/

/-- A roster and a detector have the same threads inside. -/
def Matches (r : Roster) (d : Detector) : Prop := r.threads.toList.Perm d.inside

variable {d : Detector}

theorem matches_empty : empty.Matches .empty := .nil

theorem Matches.mem_iff (h : r.Matches d) : t ∈ r.threads ↔ t ∈ d.inside :=
  Array.mem_toList_iff.symm.trans (List.Perm.mem_iff h)

/-- Both let the thread in, or both turn it away. -/
theorem Matches.enter? (h : r.Matches d) (t : Thread) : Option.Rel Matches (r.enter? t) (d.enter? t) := by
  unfold Roster.enter? Detector.enter?
  by_cases ht : t ∈ d.inside
  · rw [if_pos (h.mem_iff.2 ht), if_pos ht]
    exact .none
  · rw [if_neg (fun hr => ht (h.mem_iff.1 hr)), if_neg ht]
    refine .some ?_
    rw [Matches, Array.toList_push]
    exact List.perm_append_comm.trans (List.Perm.cons t h)

theorem Matches.leave (h : r.Matches d) (t : Thread) : (r.leave t).Matches (d.leave t) :=
  (toList_leave r t).trans (List.Perm.erase t h)

end Roster

end SlotRegistry
