import Mathlib.Data.List.Induction
import SlotRegistry.Proofs.Machine.Reentry
/-!
# Turns — what happened while threads took turns

A play is a list of turns, each told by the strand that takes it.  A turn is a step of that strand in the world of the
moment (`Takes`); a strand that would have to wait takes none.  A fact about the world that only turns of one kind bring
about, and that lasts, holds exactly when such a turn was taken (`iff_happens`).
-/
namespace SlotRegistry

variable {α : Type}

namespace Pool

/-- The pool after some turns, each told by the strand that takes it. -/
def play (P : Pool α) (turns : List Nat) : Pool α := turns.foldl step P

/-- The turn with the number `j` is a step from `c`. -/
def Takes (P : Pool α) (turns : List Nat) (j : Nat) (c : Config α) : Prop :=
  ∃ i s, turns[j]? = some i ∧ (P.play (turns.take j)).strands[i]? = some s ∧
    c = s.within (P.play (turns.take j)).world ∧ c.step.isBlocked = false

/-- One of the turns is a step from such a configuration. -/
def Happens (P : Pool α) (turns : List Nat) (R : Config α → Prop) : Prop := ∃ j c, P.Takes turns j c ∧ R c

/-- No two of the turns are steps from such configurations. -/
def Once (P : Pool α) (turns : List Nat) (R : Config α → Prop) : Prop :=
  ∀ j j' c c', P.Takes turns j c → R c → P.Takes turns j' c' → R c' → j = j'

variable {P : Pool α} {turns : List Nat} {i j k : Nat} {c c' : Config α} {s : Strand α} {R : Config α → Prop}

theorem play_concat (turns : List Nat) : P.play (turns ++ [i]) = (P.play turns).step i := by
  rw [play, List.foldl_append]
  rfl

theorem reaches_play (turns : List Nat) : Reaches P (P.play turns) := by
  induction turns using List.reverseRecOn with
  | nil => exact .refl P
  | append_singleton turns i ih =>
    rw [play_concat]
    exact .tail ih i

/-! ### The turns of a play -/

theorem Takes.lt_length (h : P.Takes turns j c) : j < turns.length := by
  obtain ⟨i, s, hi, -⟩ := h
  exact (List.getElem?_eq_some_iff.1 hi).1

theorem Takes.world (h : P.Takes turns j c) : (P.play (turns.take j)).world = c.world := by
  obtain ⟨i, s, -, -, rfl, -⟩ := h
  rfl

theorem Takes.unique (h : P.Takes turns j c) (h' : P.Takes turns j c') : c = c' := by
  obtain ⟨i, s, hi, hs, rfl, -⟩ := h
  obtain ⟨i', s', hi', hs', rfl, -⟩ := h'
  rw [hi] at hi'
  cases hi'
  rw [hs] at hs'
  cases hs'
  rfl

/-- A turn is a turn of any play that goes on from there. -/
theorem Takes.take (h : P.Takes turns j c) (hjk : j < k) : P.Takes (turns.take k) j c := by
  obtain ⟨i, s, hi, hs, hc, hb⟩ := h
  have htake : (turns.take k).take j = turns.take j := by rw [List.take_take, Nat.min_eq_left (Nat.le_of_lt hjk)]
  refine ⟨i, s, ?_, ?_, ?_, hb⟩
  · rw [List.getElem?_take_of_lt hjk, hi]
  · rw [htake, hs]
  · rw [htake, hc]

theorem Happens.of_take (h : P.Happens (turns.take k) R) : P.Happens turns R := by
  obtain ⟨j, c, ⟨i, s, hi, hs, hc, hb⟩, hR⟩ := h
  have hjk : j < k := by
    have hlt := (List.getElem?_eq_some_iff.1 hi).1
    rw [List.length_take] at hlt
    omega
  rw [List.getElem?_take_of_lt hjk] at hi
  rw [List.take_take, Nat.min_eq_left (Nat.le_of_lt hjk)] at hs hc
  exact ⟨j, c, ⟨i, s, hi, hs, hc, hb⟩, hR⟩

theorem takes_concat : P.Takes (turns ++ [i]) j c ↔ P.Takes turns j c ∨
    j = turns.length ∧ ∃ s, (P.play turns).strands[i]? = some s ∧ c = s.within (P.play turns).world ∧
      c.step.isBlocked = false := by
  rcases Nat.lt_trichotomy j turns.length with hj | rfl | hj
  · rw [or_iff_left fun h => Nat.ne_of_lt hj h.1, Takes, List.getElem?_append_left hj,
      List.take_append_of_le_length (Nat.le_of_lt hj)]
    rfl
  · rw [or_iff_right fun h => Nat.lt_irrefl _ h.lt_length, Takes, List.getElem?_concat_length,
      List.take_left' rfl]
    constructor
    · rintro ⟨i', s, hi, h⟩
      cases hi
      exact ⟨rfl, s, h⟩
    · rintro ⟨-, s, h⟩
      exact ⟨i, s, rfl, h⟩
  · refine iff_of_false (fun h => ?_) fun h => ?_
    · have hlt := h.lt_length
      rw [List.length_append, List.length_singleton] at hlt
      omega
    · rcases h with h | ⟨h, -⟩
      · exact Nat.lt_asymm hj h.lt_length
      · exact Nat.ne_of_gt hj h

theorem happens_concat : P.Happens (turns ++ [i]) R ↔
    P.Happens turns R ∨ ∃ c, P.Takes (turns ++ [i]) turns.length c ∧ R c := by
  constructor
  · rintro ⟨j, c, h, hR⟩
    rcases takes_concat.1 h with hbefore | ⟨rfl, -⟩
    · exact .inl ⟨j, c, hbefore, hR⟩
    · exact .inr ⟨c, h, hR⟩
  · rintro (⟨j, c, h, hR⟩ | ⟨c, h, hR⟩)
    · exact ⟨j, c, takes_concat.2 (.inl h), hR⟩
    · exact ⟨_, c, h, hR⟩

theorem not_happens_nil : ¬ P.Happens [] R := by
  rintro ⟨j, c, h, -⟩
  exact Nat.not_lt_zero j h.lt_length

/-- Whoever is to take the next turn has none and changes nothing, or takes it. -/
theorem turn_cases (P : Pool α) (turns : List Nat) (i : Nat) :
    (P.play (turns ++ [i])).world = (P.play turns).world ∧ (∀ c, ¬ P.Takes (turns ++ [i]) turns.length c) ∨
    ∃ c, P.Takes (turns ++ [i]) turns.length c ∧ c.world = (P.play turns).world ∧
      (P.play (turns ++ [i])).world = c.step.world := by
  rw [play_concat]
  cases hs : (P.play turns).strands[i]? with
  | none =>
    refine .inl ⟨by rw [step, hs], fun c h => ?_⟩
    rcases takes_concat.1 h with h | ⟨-, s, hs', -⟩
    · exact Nat.lt_irrefl _ h.lt_length
    · rw [hs] at hs'
      cases hs'
  | some s =>
    by_cases hb : (s.within (P.play turns).world).step.isBlocked
    · refine .inl ⟨by rw [step_of_getElem? hs, if_pos hb], fun c h => ?_⟩
      rcases takes_concat.1 h with h | ⟨-, s', hs', rfl, hb'⟩
      · exact Nat.lt_irrefl _ h.lt_length
      · rw [hs] at hs'
        cases hs'
        rw [hb] at hb'
        cases hb'
    · have hb : (s.within (P.play turns).world).step.isBlocked = false := by simpa using hb
      exact .inr ⟨_, takes_concat.2 (.inr ⟨rfl, s, hs, rfl, hb⟩), rfl, (step_of_not_blocked hs hb).1⟩

/-! ### What the turns bring about -/

/-- What every turn keeps up is true after all of them. -/
theorem holds_of_turn {F : World α → Prop} (start : F P.world)
    (turn : ∀ turns j c, P.Takes turns j c → F c.world → F c.step.world) : F (P.play turns).world := by
  induction turns using List.reverseRecOn with
  | nil => exact start
  | append_singleton turns i ih =>
    rcases turn_cases P turns i with ⟨hsame, -⟩ | ⟨c, hc, hbefore, hafter⟩
    · rw [hsame]
      exact ih
    · rw [hafter]
      exact turn _ _ _ hc (hbefore ▸ ih)

/-- What is true of the world only since a turn of one kind was taken tells of such a turn. -/
theorem happens_of_turn {F : World α → Prop} (start : ¬ F P.world)
    (turn : ∀ turns j c, P.Takes turns j c → F c.step.world → F c.world ∨ R c) (h : F (P.play turns).world) :
    P.Happens turns R := by
  induction turns using List.reverseRecOn with
  | nil => exact absurd h start
  | append_singleton turns i ih =>
    rw [happens_concat]
    rcases turn_cases P turns i with ⟨hsame, -⟩ | ⟨c, hc, hbefore, hafter⟩
    · rw [hsame] at h
      exact .inl (ih h)
    · rw [hafter] at h
      rcases turn _ _ _ hc h with h | h
      · exact .inl (ih (hbefore ▸ h))
      · exact .inr ⟨c, hc, h⟩

/-- What lasts, once a turn has brought it about, is true since then. -/
theorem of_happens {F : World α → Prop} (lasts : ∀ turns j c, P.Takes turns j c → F c.world ∨ R c → F c.step.world)
    (h : P.Happens turns R) : F (P.play turns).world := by
  induction turns using List.reverseRecOn with
  | nil => exact absurd h not_happens_nil
  | append_singleton turns i ih =>
    rw [happens_concat] at h
    rcases turn_cases P turns i with ⟨hsame, hnone⟩ | ⟨c, hc, hbefore, hafter⟩
    · rcases h with h | ⟨c, hc, -⟩
      · rw [hsame]
        exact ih h
      · exact absurd hc (hnone c)
    · rw [hafter]
      rcases h with h | ⟨c', hc', hR⟩
      · exact lasts _ _ _ hc (.inl (hbefore ▸ ih h))
      · cases hc.unique hc'
        exact lasts _ _ _ hc (.inr hR)

/-- **What lasts, and only turns of one kind bring about, holds exactly when such a turn was taken.** -/
theorem iff_happens {F : World α → Prop} (start : ¬ F P.world)
    (turn : ∀ turns j c, P.Takes turns j c → (F c.step.world ↔ F c.world ∨ R c)) :
    F (P.play turns).world ↔ P.Happens turns R :=
  ⟨happens_of_turn start fun turns j c h => (turn turns j c h).1,
    of_happens fun turns j c h => (turn turns j c h).2⟩

/-- **What lasts, and turns of one kind bring about that cannot be taken any more then, they bring about once.** -/
theorem once_of_lasts {F : World α → Prop} (lasts : ∀ turns j c, P.Takes turns j c → F c.world ∨ R c → F c.step.world)
    (first : ∀ turns j c, P.Takes turns j c → R c → ¬ F c.world) : P.Once turns R := by
  have hnot : ∀ {j j' c c'}, P.Takes turns j c → R c → P.Takes turns j' c' → R c' → ¬ j < j' := by
    intro j j' c c' h hR h' hR' hlt
    have hF : F (P.play (turns.take j')).world := of_happens lasts ⟨j, c, h.take hlt, hR⟩
    rw [h'.world] at hF
    exact first _ _ _ h' hR' hF
  intro j j' c c' h hR h' hR'
  exact Nat.le_antisymm (Nat.le_of_not_lt (hnot h' hR' h hR)) (Nat.le_of_not_lt (hnot h hR h' hR'))

end Pool

end SlotRegistry
