import SlotRegistry.Proofs.Registry.History
import SlotRegistry.Proofs.Reference.Table
/-!
# FullTurn — no id is handed out again before a full turn

Each granted reservation moves the cursor ahead by less than a full turn, over ids that are present.  So the places that
the cursor went over since an id was handed out are known from how far it went (`swept`), and when the id is handed out
again it went over every other one.
-/
namespace SlotRegistry

variable {α : Type}

/-- At a moment at which an id is handed out, `y` is the one, or is present. -/
def Moment.Passes (m : Moment α) (y : SlotId) : Prop :=
  m.claimed? = some y ∨ m.claimed?.isSome ∧ (m.registry.slot? y).isSome

namespace Registry

variable {x : SlotId}

/-- **Whatever the cursor went over was passed.**  It starts `s` places ahead of `x` and ends `e` places ahead. -/
theorem swept : ∀ (acts : List (Act α)) {r : Registry α} {s : Nat}, r.cursor = x.ahead s →
    ∃ e, s ≤ e ∧ (r.afterAll acts).cursor = x.ahead e ∧
      ∀ d, s < d → d ≤ e → ∃ m ∈ r.history acts, m.Passes (x.ahead d)
  | [], r, s, hs => ⟨s, Nat.le_refl s, hs, fun d hsd hds => absurd hsd (by omega)⟩
  | a :: acts, r, s, hs => by
    have hcursor := cursor_after (r := r) (a := a)
    cases r.comes a with
    | claims id k claimed freed after absent pos lt eq before =>
      -- up to `s + k` the places are passed now, and those further on later
      rw [claimed, eq, hs, SlotId.ahead_ahead] at hcursor
      obtain ⟨e, hle, hend, hpass⟩ := swept acts hcursor
      refine ⟨e, by omega, hend, fun d hsd hde => ?_⟩
      have hhere : ∀ y, Moment.Passes ⟨r, a⟩ y → ∃ m ∈ r.history (a :: acts), m.Passes y :=
        fun y hy => ⟨_, List.mem_cons_self, hy⟩
      rcases Nat.lt_trichotomy d (s + k) with hd | rfl | hd
      · refine hhere _ (.inr ⟨by rw [Moment.claimed?, claimed]; rfl, ?_⟩)
        have hb := before (d - s) (by omega) (by omega)
        rw [hs, SlotId.ahead_ahead, show s + (d - s) = d by omega] at hb
        exact hb
      · refine hhere _ (.inl ?_)
        rw [Moment.claimed?, claimed, eq, hs, SlotId.ahead_ahead]
      · obtain ⟨m, hm, hy⟩ := hpass d hd hde
        exact ⟨m, List.mem_cons_of_mem _ hm, hy⟩
    | refused after claimed | binds id v claimed | frees id claimed =>
      rw [claimed, Option.getD_none, hs] at hcursor
      obtain ⟨e, hle, hend, hpass⟩ := swept acts hcursor
      refine ⟨e, hle, hend, fun d hsd hde => ?_⟩
      obtain ⟨m, hm, hy⟩ := hpass d hsd hde
      exact ⟨m, List.mem_cons_of_mem _ hm, hy⟩

/-- A registry in which some ids are reserved, and the cursor stands at 0. -/
def crowd (ids : List SlotId) : Registry α := ids.foldl (fun r id => r.withSlot id .reserved) empty

theorem slot?_foldl_withSlot : ∀ (ids : List SlotId) (r : Registry α),
    (ids.foldl (fun r id => r.withSlot id .reserved) r).slot? x = if x ∈ ids then some .reserved else r.slot? x
  | [], r => rfl
  | id :: ids, r => by
    rw [List.foldl_cons, slot?_foldl_withSlot ids, slot?_withSlot]
    by_cases hx : x ∈ ids
    · rw [if_pos hx, if_pos (List.mem_cons_of_mem _ hx)]
    · by_cases hid : id = x
      · rw [if_neg hx, if_pos hid, if_pos (by rw [hid]; exact List.mem_cons_self)]
      · rw [if_neg hx, if_neg hid, if_neg (by simp [hx, Ne.symm hid])]

theorem cursor_foldl_withSlot : ∀ (ids : List SlotId) (r : Registry α),
    (ids.foldl (fun r id => r.withSlot id .reserved) r).cursor = r.cursor
  | [], _ => rfl
  | id :: ids, r => cursor_foldl_withSlot ids (r.withSlot id .reserved)

theorem cursor_crowd (ids : List SlotId) : (crowd ids : Registry α).cursor = 0 := cursor_foldl_withSlot ids empty

theorem slot?_crowd {ids : List SlotId} :
    (crowd ids : Registry α).slot? x = if x ∈ ids then some .reserved else none := by
  rw [crowd, slot?_foldl_withSlot, slot?_empty]

/-- **No id is handed out again before a full turn.**  When an id is handed out twice, and not in between, it was freed
in between and another id was handed out; and every other id was handed out in between, or was present when one was
handed out after the first time, the second time included. -/
theorem no_reuse_before_a_full_turn {r : Registry α} {acts : List (Act α)} {before between after : List (Moment α)}
    {first second : Moment α} (h : r.history acts = before ++ first :: (between ++ second :: after))
    (hfirst : first.claimed? = some x) (hsecond : second.claimed? = some x)
    (hbetween : ∀ m ∈ between, m.claimed? ≠ some x) :
    (∃ m ∈ between, m.freed? = some x) ∧
    (∃ m ∈ between, ∃ z, z ≠ x ∧ m.claimed? = some z) ∧
    ∀ y, y ≠ x → (∃ m ∈ between, m.claimed? = some y) ∨
      ∃ m ∈ between ++ [second], m.claimed?.isSome ∧ (m.registry.slot? y).isSome := by
  obtain ⟨acts₁, acts₂, -, -, h₂⟩ := history_eq_append h
  obtain ⟨hr₁, acts₃, h₃⟩ := history_eq_cons h₂
  obtain ⟨acts₄, acts₅, -, h₄, h₅⟩ := history_eq_append h₃
  obtain ⟨hr₂, -⟩ := history_eq_cons h₅
  rw [Moment.claimed?, hr₁] at hfirst
  rw [Moment.claimed?, hr₂] at hsecond
  generalize r.afterAll acts₁ = r₁ at hfirst h₄ hsecond hr₂
  have hpresent : ((r₁.after first.act).slot? x).isSome := by rw [slot?_of_claimed hfirst]; rfl
  have hcursor : (r₁.after first.act).cursor = x.ahead 0 := by rw [cursor_after, hfirst, SlotId.ahead_zero]; rfl
  obtain ⟨e, -, hend, hpass⟩ := swept acts₄ hcursor
  rw [h₄] at hpass
  -- the second reservation closes the ring
  cases comes ((r₁.after first.act).afterAll acts₄) second.act with
  | refused after claimed | binds id v claimed | frees id claimed => rw [claimed] at hsecond; cases hsecond
  | claims id k claimed freed after' absent pos lt eq hbefore =>
    rw [claimed, Option.some.injEq] at hsecond
    rw [hend, SlotId.ahead_ahead] at eq
    rw [hsecond] at absent eq
    have hturn := SlotId.count_le_of_ahead_eq (by omega) eq.symm
    refine ⟨?_, ?_, fun y hy => ?_⟩
    · rw [← h₄]
      exact exists_freed hpresent absent
    · obtain ⟨m, hm, hy⟩ := hpass e (by omega) (Nat.le_refl e)
      refine ⟨m, hm, ?_⟩
      have hsome : m.claimed?.isSome := by
        rcases hy with hy | hy
        · rw [hy]; rfl
        · exact hy.1
      obtain ⟨z, hz⟩ := Option.isSome_iff_exists.1 hsome
      exact ⟨z, fun heq => hbetween m hm (by rw [hz, heq]), hz⟩
    · obtain ⟨d, hpos, hlt, rfl⟩ := SlotId.exists_ahead hy
      by_cases hde : d ≤ e
      · obtain ⟨m, hm, hclaim | hthere⟩ := hpass d hpos hde
        · exact .inl ⟨m, hm, hclaim⟩
        · exact .inr ⟨m, List.mem_append_left _ hm, hthere⟩
      · refine .inr ⟨second, List.mem_append_right _ (List.mem_singleton.2 rfl), ?_, ?_⟩
        · rw [Moment.claimed?, hr₂, claimed]
          rfl
        · have hb := hbefore (d - e) (by omega) (by omega)
          rw [hend, SlotId.ahead_ahead, show e + (d - e) = d by omega] at hb
          rw [hr₂]
          exact hb

/-- Every id but 1 and 2 is reserved. -/
def twoLeft : Registry Nat := crowd (SlotId.all.filter fun id => id ≠ 1 ∧ id ≠ 2)

theorem cursor_twoLeft : twoLeft.cursor = 0 := by rw [twoLeft, cursor_crowd]

theorem slot?_twoLeft : twoLeft.slot? x = if x = 1 ∨ x = 2 then none else some .reserved := by
  rw [twoLeft, slot?_crowd]
  by_cases hx : x = 1 ∨ x = 2
  · rw [if_pos hx, if_neg (by simp [SlotId.mem_all]; tauto)]
  · rw [if_neg hx, if_pos (by simp [SlotId.mem_all]; tauto)]

/-- With all ids but 1 and 2 present, id 1 is handed out, and after its removal id 2 and then id 1. -/
theorem reserve_twice {r₀ : Registry Nat} (hs₀ : ∀ y, r₀.slot? y = if y = 1 ∨ y = 2 then none else some .reserved)
    (hc₀ : r₀.cursor = 0) :
    ∃ r₁ r₃ : Registry Nat,
      r₀.history [.reserve, .remove 1, .reserve, .reserve] =
        [] ++ ⟨r₀, .reserve⟩ :: ([⟨r₁, .remove 1⟩, ⟨r₁.remove 1, .reserve⟩] ++ [⟨r₃, .reserve⟩]) ∧
      Moment.claimed? ⟨r₀, .reserve⟩ = some 1 ∧ Moment.claimed? ⟨r₁.remove 1, .reserve⟩ = some 2 ∧
      Moment.claimed? ⟨r₃, .reserve⟩ = some 1 := by
  have h₀ : r₀.reserve = .ok (1, { r₀.withSlot 1 .reserved with cursor := 1 }) := by
    have h := reserve_of_nearest (r := r₀) (k := 1) (by decide) (by decide)
      (by rw [hc₀, hs₀]; rfl) (fun j hj hj' => absurd hj (by omega))
    rw [hc₀] at h
    exact h
  generalize hr₁ : ({ r₀.withSlot 1 .reserved with cursor := 1 } : Registry Nat) = r₁ at h₀
  have hs₁ : ∀ y, r₁.slot? y = if 1 = y then some .reserved else r₀.slot? y := by
    intro y
    rw [← hr₁]
    exact slot?_withSlot
  have h₂ : (r₁.remove 1).reserve = .ok (2, { (r₁.remove 1).withSlot 2 .reserved with cursor := 2 }) := by
    have hc : (r₁.remove 1).cursor = 1 := by rw [← hr₁]; rfl
    have h := reserve_of_nearest (r := r₁.remove 1) (k := 1) (by decide) (by decide)
      (by rw [hc, slot?_remove, hs₁, hs₀]; rfl) (fun j hj hj' => absurd hj (by omega))
    rw [hc] at h
    exact h
  generalize hr₃ : ({ (r₁.remove 1).withSlot 2 .reserved with cursor := 2 } : Registry Nat) = r₃ at h₂
  have hs₃ : ∀ y, r₃.slot? y = if y = 1 then none else some .reserved := by
    intro y
    rw [← hr₃]
    refine slot?_withSlot.trans ?_
    rw [slot?_remove, hs₁, hs₀]
    grind
  have h₃ : r₃.reserve = .ok (1, { r₃.withSlot 1 .reserved with cursor := 1 }) := by
    have hc : r₃.cursor = 2 := by rw [← hr₃]
    have hlast : SlotId.ahead 2 65535 = 1 := UInt16.toNat_inj.1 (by rw [SlotId.toNat_ahead]; rfl)
    have h := reserve_of_nearest (r := r₃) (k := 65535) (by decide) (by decide)
      (by rw [hc, hlast, hs₃, if_pos rfl]) (fun j hj hj' => by
        rw [hc, hs₃, if_neg (fun h => ?_)]
        · rfl
        · have := congrArg UInt16.toNat h
          rw [SlotId.toNat_ahead] at this
          simp [SlotId.count] at this
          omega)
    rw [hc, hlast] at h
    exact h
  refine ⟨r₁, r₃, ?_, by rw [Moment.claimed?, claimed?, h₀],
    by rw [Moment.claimed?, claimed?, h₂], by rw [Moment.claimed?, claimed?, h₃]⟩
  simp only [history, after, h₀, h₂]
  rfl

/-- Id 1 is handed out, removed, and handed out again when id 2 has been. -/
theorem no_reuse_of_the_last_but_one :
    ∃ first second : Moment Nat, ∃ between : List (Moment Nat),
      twoLeft.history [.reserve, .remove 1, .reserve, .reserve] = first :: (between ++ [second]) ∧
      first.claimed? = some 1 ∧ second.claimed? = some 1 ∧ (∃ m ∈ between, m.freed? = some 1) ∧
      ∀ y, y ≠ 1 → (∃ m ∈ between, m.claimed? = some y) ∨
        ∃ m ∈ between ++ [second], m.claimed?.isSome ∧ (m.registry.slot? y).isSome := by
  obtain ⟨r₁, r₃, hhistory, hfirst, hthird, hsecond⟩ := reserve_twice (fun y => slot?_twoLeft) cursor_twoLeft
  obtain ⟨hfreed, -, hother⟩ := no_reuse_before_a_full_turn hhistory hfirst hsecond (fun m hm => by
    rcases List.mem_cons.1 hm with rfl | hm
    · exact nofun
    · rw [List.mem_singleton.1 hm, hthird]
      decide)
  exact ⟨_, _, _, hhistory, hfirst, hsecond, hfreed, hother⟩

end Registry

end SlotRegistry
