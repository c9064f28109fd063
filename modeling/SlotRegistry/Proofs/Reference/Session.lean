import SlotRegistry.Proofs.Reference.Follow
/-!
# Session — requests that threads make one after the other

A session is a run of requests, each served before the next is made, on whatever thread.  Every history of requests has
exactly one session, and it goes as the reference says.
-/
namespace SlotRegistry

variable {α : Type}

namespace Config

variable {c d e : Config α}

theorem Reaches.eq_or_step (h : Reaches c d) : d = c ∨ Reaches c.step d := by
  induction h with
  | refl => exact .inl rfl
  | tail h ih =>
    rcases ih with rfl | ih
    · exact .inr (.refl _)
    · exact .inr (.tail ih)

/-- The machine takes one way only. -/
theorem Reaches.total (h : Reaches c d) (h' : Reaches c e) : Reaches d e ∨ Reaches e d := by
  induction h' with
  | refl => exact .inr h
  | tail h' ih =>
    rcases ih with ih | ih
    · exact .inl (.tail ih)
    · rcases ih.eq_or_step with rfl | ih
      · exact .inl (.tail (.refl _))
      · exact .inr ih

theorem Reaches.eq_of_isOver (h : Reaches c d) (hc : c.isOver) : d = c := by
  induction h with
  | refl => rfl
  | tail h ih => rw [ih, step_of_isOver hc]

end Config

/-- A request that was served, with the world it was made in, its thread and what came of it. -/
structure Served (α : Type) where
  before : World α
  thread : Thread
  request : Request α
  outcome : Outcome α

/-- Requests that are served one after the other. -/
inductive Session : World α → List (Served α) → World α → Prop
  | nil (w : World α) : Session w [] w
  | cons {s : Served α} {w w' : World α} {rest : List (Served α)}
      (served : Serves s.before s.thread s.request.call s.outcome w) (after : Session w rest w') :
      Session s.before (s :: rest) w'

/-- The requests of a session, with their threads. -/
def asked (served : List (Served α)) : List (Thread × Request α) := served.map fun s => (s.thread, s.request)

section

variable {w w' w₁ w₂ : World α} {t : Thread} {call : Call α (Program α)} {x x₁ x₂ : Outcome α} {m : Managers α}
  {r : Request α} {served served' rest : List (Served α)} {s : Served α}

/-- **A call is served in one way only.** -/
theorem Serves.unique (h₁ : Serves w t call x₁ w₁) (h₂ : Serves w t call x₂ w₂) : x₁ = x₂ ∧ w₁ = w₂ := by
  have hstop : ∀ {x x' : Outcome α} {w w' : World α},
      Config.Reaches ⟨w, t, .replying x fun _ => .idle, []⟩ ⟨w', t, .replying x' fun _ => .idle, []⟩ →
      x' = x ∧ w' = w := by
    intro x x' w w' h
    rcases h.eq_or_step with h | h
    · cases h
      exact ⟨rfl, rfl⟩
    · cases h.eq_of_isOver rfl
  rcases (h₁ fun _ => .idle).total (h₂ fun _ => .idle) with h | h
  · obtain ⟨hx, hw⟩ := hstop h
    exact ⟨hx.symm, hw.symm⟩
  · exact hstop h

theorem session_nil (h : Session w [] w') : w' = w := by
  cases h
  rfl

theorem session_cons (h : Session w (s :: rest) w') :
    w = s.before ∧ ∃ w₁, Serves w s.thread s.request.call s.outcome w₁ ∧ Session w₁ rest w' := by
  cases h with
  | cons served after => exact ⟨rfl, _, served, after⟩

theorem session_append (h : Session w (served ++ rest) w') : ∃ w₁, Session w served w₁ ∧ Session w₁ rest w' := by
  induction served generalizing w with
  | nil => exact ⟨w, .nil w, h⟩
  | cons s served ih =>
    obtain ⟨rfl, w₁, hserves, hafter⟩ := session_cons h
    obtain ⟨w₂, hserved, hrest⟩ := ih hafter
    exact ⟨w₂, .cons hserves hserved, hrest⟩

/-- **A history has one session only.** -/
theorem Session.unique (h : Session w served w₁) (h' : Session w served' w₂) (heq : asked served' = asked served) :
    served' = served ∧ w₂ = w₁ := by
  induction h generalizing served' with
  | nil w =>
    obtain rfl : served' = [] := List.map_eq_nil_iff.1 heq
    exact ⟨rfl, session_nil h'⟩
  | @cons s w w₁ rest hserved after ih =>
    obtain ⟨s', rest', rfl⟩ : ∃ s' rest', served' = s' :: rest' := by
      cases served' with
      | nil => cases heq
      | cons s' rest' => exact ⟨s', rest', rfl⟩
    obtain ⟨hbefore, w', hserved', after'⟩ := session_cons h'
    simp only [asked, List.map_cons, List.cons.injEq, Prod.mk.injEq] at heq
    obtain ⟨⟨hthread, hrequest⟩, hrest⟩ := heq
    rw [hthread, hrequest] at hserved'
    obtain ⟨hx, rfl⟩ := hserved'.unique hserved
    obtain ⟨hrest, hw⟩ := ih after' hrest
    obtain ⟨before, thread, request, outcome⟩ := s
    obtain ⟨before', thread', request', outcome'⟩ := s'
    simp only at hbefore hthread hrequest hx
    subst hbefore hthread hrequest hx hrest
    exact ⟨rfl, hw⟩

theorem World.Follows.of_serves (hw : w.Follows m) (h : Serves w t r.call x w') :
    (m.perform r).1.Shows x ∧ w'.Follows (m.perform r).2 := by
  obtain ⟨x', w'', h', hx, hw'⟩ := hw.answered t r
  obtain ⟨rfl, rfl⟩ := h.unique h'
  exact ⟨hx, hw'⟩

theorem World.Follows.exists_session (hw : w.Follows m) (history : List (Thread × Request α)) :
    ∃ served w', Session w served w' ∧ asked served = history ∧
      List.Forall₂ Reply.Shows (m.fulfil (history.map Prod.snd)).1 (served.map Served.outcome) ∧
      w'.Follows (m.fulfil (history.map Prod.snd)).2 := by
  induction history generalizing w m with
  | nil => exact ⟨[], w, .nil w, rfl, .nil, hw⟩
  | cons p history ih =>
    obtain ⟨t, r⟩ := p
    obtain ⟨x, w₁, hserves, hx, hw₁⟩ := hw.answered t r
    obtain ⟨served, w', hsession, hasked, hreplies, hw'⟩ := ih hw₁
    refine ⟨⟨w, t, r, x⟩ :: served, w', .cons (s := ⟨w, t, r, x⟩) hserves hsession, ?_, .cons hx hreplies, hw'⟩
    rw [← hasked]
    rfl

theorem World.Follows.live (hw : w.Follows m) {n : CellId} (hlive : m.Live n) :
    ∃ cell table, w.cells[n]? = some cell ∧ m.tables[n]? = some table ∧ cell.registry.Shows table := by
  obtain ⟨b, hb, rfl⟩ := hlive
  have hpos : 0 < w.handles.countP (fun h => h.2 = b.2) :=
    List.countP_pos_iff.2 ⟨b, by rw [hw.handles]; exact hb, by simp⟩
  have howners := (hw.quiet.tallies b.2).owners
  cases hc : w.cells[b.2]? with
  | none =>
    rw [Ledger.cellAt, hc, Ledger.boundTo] at howners
    exact absurd howners (by simp only [Option.getD_none, Cell.void]; omega)
  | some cell =>
    have hn : b.2 < m.tables.length := by rw [← hw.length]; exact (List.getElem?_eq_some_iff.1 hc).1
    have ht : m.tables[b.2]? = some m.tables[b.2] := List.getElem?_eq_getElem hn
    exact ⟨cell, _, rfl, ht, hw.shows _ cell _ ⟨b, hb, rfl⟩ hc ht⟩

end

/-- **Sessions go as the reference says.**  Every history of requests that are not nested has exactly one session.  Every
reply in it is what the reference replies, and at its end the handles are those of the reference and every live registry
shows its table.  A request that the reference refuses leaves all its tables as they were. -/
theorem sessions_follow (v : Verbosity) (history : List (Thread × Request α)) :
    (∃ served w, (Session (World.empty v) served w ∧ asked served = history) ∧
      (∀ served' w', Session (World.empty v) served' w' → asked served' = history → served' = served ∧ w' = w) ∧
      List.Forall₂ Reply.Shows (Managers.empty.fulfil (history.map Prod.snd)).1 (served.map Served.outcome) ∧
      w.handles = (Managers.empty.fulfil (history.map Prod.snd)).2.handles ∧
      ∀ n, (Managers.empty.fulfil (history.map Prod.snd)).2.Live n →
        ∃ cell table, w.cells[n]? = some cell ∧
          (Managers.empty.fulfil (history.map Prod.snd)).2.tables[n]? = some table ∧ cell.registry.Shows table) ∧
    ∀ (m : Managers α) (r : Request α) (why : Refusal), (m.perform r).1 = .refused why → (m.perform r).2 = m := by
  refine ⟨?_, fun m r why => Managers.perform_of_refused⟩
  obtain ⟨served, w, hsession, hasked, hreplies, hw⟩ := (follows_empty v).exists_session history
  refine ⟨served, w, ⟨hsession, hasked⟩, fun served' w' h' heq => ?_, hreplies, hw.handles, fun n hlive => hw.live hlive⟩
  exact hsession.unique h' (heq.trans hasked.symm)

end SlotRegistry
