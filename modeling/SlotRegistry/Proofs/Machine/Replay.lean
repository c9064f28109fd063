import SlotRegistry.Proofs.Machine.Trade
import SlotRegistry.Proofs.Registry.Ring
/-!
# Replay — the events of a registry tell all that happened to it

When the listener is told everything, the events of a registry can be replayed on an empty one: each changes the slot
that it is about, and none comes where it does not fit.  What comes out are the present ids, each reserved or occupied as
it is, and the cursor.
-/
namespace SlotRegistry

variable {α : Type}

namespace Registry

/-- The registry without its values: which ids are present, which of them are occupied, and the cursor. -/
def blank (r : Registry (Stored α)) : Registry Unit := r.map fun _ => ()

variable {r : Registry (Stored α)} {id : SlotId}

theorem slot?_blank : r.blank.slot? id = (r.slot? id).map (Slot.map fun _ => ()) := Std.ExtTreeMap.getElem?_map

theorem isSome_slot?_blank : (r.blank.slot? id).isSome = (r.slot? id).isSome := by
  rw [slot?_blank, Option.isSome_map]

@[simp] theorem cursor_blank : r.blank.cursor = r.cursor := rfl

theorem blank_empty : (empty : Registry (Stored α)).blank = empty := by
  refine ext (fun id => ?_) rfl
  rw [slot?_blank, slot?_empty, slot?_empty]
  rfl

theorem blank_remove : (r.remove id).blank = r.blank.remove id := by
  refine ext (fun x => ?_) rfl
  rw [slot?_blank, slot?_remove, slot?_remove, slot?_blank]
  split <;> rfl

theorem blank_withSlot {slot : Slot (Stored α)} :
    (r.withSlot id slot).blank = r.blank.withSlot id (slot.map fun _ => ()) := by
  refine ext (fun x => ?_) rfl
  rw [slot?_blank, slot?_withSlot, slot?_withSlot, slot?_blank]
  split <;> rfl

end Registry

/-! ### Replaying events -/

/-- What an event does to a registry without values, none when it does not fit there. -/
def Event.replay? (t : Registry Unit) : Event → Option (Registry Unit)
  | reserved id => if t.slot? id = none then some { t.withSlot id .reserved with cursor := id } else none
  | added id => if t.slot? id = none then some (t.withSlot id (.occupied ())) else none
  | set id => if t.slot? id = some .reserved then some (t.withSlot id (.occupied ())) else none
  | popped id => if t.slot? id = some (.occupied ()) then some (t.remove id) else none
  | released id true => if (t.slot? id).isSome then some (t.remove id) else none
  | released _ false => some t
  | exhausted _ => some t

/-- The registry that some events make of an empty one, none when one of them does not fit. -/
def replay? (events : List Event) : Option (Registry Unit) := events.foldlM Event.replay? .empty

/-- What an event says of the registry it is told about: a release has removed nothing when the id is absent, and when
there is no id left every id but the cursor is present. -/
def Event.IsTrue (t : Registry Unit) : Event → Prop
  | released id removed => removed = false ↔ t.slot? id = none
  | exhausted cursor => t.cursor = cursor ∧ ∀ id ≠ cursor, (t.slot? id).isSome
  | reserved _ | added _ | set _ | popped _ => True

/-- The event of an entry about the cell `n`. -/
def Entry.eventIn? (n : CellId) : Entry α → Option Event
  | event e m _ _ => if m = n then some e else none
  | _ => none

theorem replay?_concat {events : List Event} {e : Event} {t : Registry Unit} (h : replay? events = some t) :
    replay? (events ++ [e]) = e.replay? t := by
  rw [replay?, List.foldlM_append, show events.foldlM Event.replay? .empty = some t from h]
  exact bind_pure (e.replay? t)

namespace World

/-- The events of a cell, in the order in which they were told. -/
def eventsOf (w : World α) (n : CellId) : List Event := w.journal.reverse.filterMap (Entry.eventIn? n)

/-- The events of the cell `n` can be replayed, and give its registry while it has owners; and each was true when it was
told. -/
structure Faithful (w : World α) (n : CellId) : Prop where
  replays : ∃ t, replay? (w.eventsOf n) = some t ∧ (¬ w.Dead n → t = (w.registryAt n).blank)
  isTrue : ∀ before e after, w.eventsOf n = before ++ e :: after → ∃ t, replay? before = some t ∧ e.IsTrue t

variable {w w' : World α} {n m : CellId} {r : Registry (Stored α)} {news : List (Entry α)} {e : Event}

theorem eventsOf_of_journal (h : w'.journal = news ++ w.journal) :
    w'.eventsOf n = w.eventsOf n ++ news.reverse.filterMap (Entry.eventIn? n) := by
  rw [eventsOf, h, List.reverse_append, List.filterMap_append]
  rfl

/-- No event of the cell is told, and its registry is as it was while it has owners. -/
theorem Faithful.same (hw : w.Faithful n) (events : w'.eventsOf n = w.eventsOf n)
    (registry : ¬ w'.Dead n → ¬ w.Dead n ∧ w'.registryAt n = w.registryAt n) : w'.Faithful n := by
  obtain ⟨t, ht, hlive⟩ := hw.replays
  refine ⟨⟨t, by rw [events]; exact ht, fun hd => ?_⟩, by rw [events]; exact hw.isTrue⟩
  obtain ⟨alive, hr⟩ := registry hd
  rw [hr]
  exact hlive alive

/-- One event of the cell is told, and it fits what happens to the registry. -/
theorem Faithful.tells (hw : w.Faithful n) (alive : ¬ w.Dead n) (events : w'.eventsOf n = w.eventsOf n ++ [e])
    (isTrue : e.IsTrue (w.registryAt n).blank)
    (replays : e.replay? (w.registryAt n).blank = some (w'.registryAt n).blank) : w'.Faithful n := by
  obtain ⟨t, ht, hlive⟩ := hw.replays
  rw [hlive alive] at ht
  refine ⟨⟨_, by rw [events, replay?_concat ht]; exact replays, fun _ => rfl⟩, fun before f after hsplit => ?_⟩
  rw [events] at hsplit
  -- the event is the new one, or stands where it stood
  rcases List.eq_nil_or_concat after with rfl | ⟨after, g, rfl⟩
  · obtain ⟨rfl, heq⟩ := List.append_inj' hsplit rfl
    cases heq
    exact ⟨_, ht, isTrue⟩
  · rw [List.concat_eq_append, ← List.cons_append, ← List.append_assoc] at hsplit
    exact hw.isTrue before f after (List.append_inj' hsplit rfl).1

/-- A step that tells no event of the cell, and does not write its registry while it has owners. -/
theorem Faithful.silent (hw : w.Faithful n) (h : w.Writes w' m r news) (dead : w.Dead n → w'.Dead n)
    (events : news.reverse.filterMap (Entry.eventIn? n) = []) (registry : m = n → ¬ w.Dead n → r = w.registryAt n) :
    w'.Faithful n := by
  refine hw.same (by rw [eventsOf_of_journal h.journal, events, List.append_nil]) fun hd => ?_
  have alive : ¬ w.Dead n := fun hdead => hd (dead hdead)
  refine ⟨alive, ?_⟩
  rw [h.registry]
  split
  · rename_i hm
    exact registry hm alive
  · rfl

/-- A step that tells one event, about the cell that it writes. -/
theorem Faithful.writes (hw : w.Faithful n) (h : w.Writes w' m r news) (alive : ¬ w.Dead m)
    (dead : w.Dead n → w'.Dead n)
    (events : news.reverse.filterMap (Entry.eventIn? n) = if m = n then [e] else [])
    (isTrue : e.IsTrue (w.registryAt m).blank) (replays : e.replay? (w.registryAt m).blank = some r.blank) :
    w'.Faithful n := by
  by_cases hm : m = n
  · subst hm
    rw [if_pos rfl] at events
    refine hw.tells alive ((eventsOf_of_journal h.journal).trans (congrArg (_ ++ ·) events)) isTrue ?_
    rw [h.registry, if_pos rfl]
    exact replays
  · rw [if_neg hm] at events
    exact hw.silent h dead events fun heq => absurd heq hm

theorem news_of_trace {t : Thread} {lock : Lock} (h : w.verbosity = .trace) :
    w.news e m t lock = [.event e m t lock] := by rw [news, h]; rfl

end World

namespace Config

variable {c d : Config α} {n : CellId} {p : Program α}

theorem eventIn?_of_plain {news : List (Entry α)} (plain : ∀ e ∈ news, e.isPlain) :
    news.reverse.filterMap (Entry.eventIn? n) = [] := by
  refine List.filterMap_eq_nil_iff.2 fun e he => ?_
  have := plain e (List.mem_reverse.1 he)
  cases e <;> first | rfl | cases this

theorem Rests.faithful (h : c.Rests d) (dead : c.world.Dead n → d.world.Dead n) (hw : c.world.Faithful n) :
    d.world.Faithful n := by
  obtain ⟨news, hj, plain⟩ := h.journal
  refine hw.same ?_ fun hd => ⟨fun hdead => hd (dead hdead), h.registry n⟩
  rw [World.eventsOf_of_journal hj, eventIn?_of_plain plain, List.append_nil]

/-- **A step keeps the journal faithful.** -/
theorem Trade.faithful (h : c.Trade d) (trace : c.world.verbosity = .trace) (dead : c.world.Dead n → d.world.Dead n)
    (hw : c.world.Faithful n) : d.world.Faithful n := by
  -- what a step tells besides values is one event, or nothing
  have hnews : ∀ (e : Event) (m : CellId) (t : Thread) (lock : Lock) (k : CellId),
      (c.world.news e m t lock).reverse.filterMap (Entry.eventIn? k) = if m = k then [e] else [] := by
    intro e m t lock k
    rw [World.news_of_trace trace]
    simp only [List.reverse_singleton, List.filterMap_cons, List.filterMap_nil, Entry.eventIn?]
    split <;> simp_all
  cases h with
  | rests h => exact h.faithful dead hw
  | @reserved h m id r next control alive granted writes =>
    obtain ⟨absent, rfl⟩ := Registry.reserve_eq_ok granted
    refine hw.writes writes alive dead (hnews ..) trivial ?_
    rw [Event.replay?, if_pos (by rw [Registry.slot?_blank, absent]; rfl)]
    have hblank : ((c.world.registryAt m).withSlot id .reserved).blank =
        (c.world.registryAt m).blank.withSlot id .reserved := Registry.blank_withSlot
    exact congrArg (fun t => some { t with cursor := id }) hblank.symm
  | @exhausted h m why next control alive refused keeps =>
    refine hw.writes (keeps m) alive dead (hnews ..) ⟨rfl, fun x hx => ?_⟩ rfl
    rw [Registry.isSome_slot?_blank]
    exact Registry.reserve_eq_error refused hx
  | @stored call h m id v e x next control offer here alive vacant writes =>
    refine hw.writes (e := e) writes alive dead ?_ ?_ ?_
    · rw [List.reverse_append, List.filterMap_append, hnews]
      rfl
    · rcases vacant with ⟨-, rfl⟩ | ⟨-, rfl⟩ <;> trivial
    · rcases vacant with ⟨hs, rfl⟩ | ⟨hs, rfl⟩
      · rw [Event.replay?, if_pos (by rw [Registry.slot?_blank, hs]; rfl), Registry.blank_withSlot]
        rfl
      · rw [Event.replay?, if_pos (by rw [Registry.slot?_blank, hs]; rfl), Registry.blank_withSlot]
        rfl
  | failed control offer here keeps => exact hw.silent (keeps n) dead rfl fun _ _ => rfl
  | stuck control offer keeps => exact hw.silent (keeps n) dead rfl fun _ _ => rfl
  | @popped h m id v next control here alive occupied writes =>
    refine hw.writes (e := .popped id) writes alive dead ?_ trivial ?_
    · rw [List.reverse_cons, List.filterMap_append, hnews]
      exact List.append_nil _
    · rw [Event.replay?, if_pos (by rw [Registry.slot?_blank, occupied]; rfl), Registry.blank_remove]
  | @released ticket v next control alive occupied writes =>
    refine hw.writes (e := .released ticket.id true) writes alive dead ?_ ?_ ?_
    · rw [List.reverse_cons, List.filterMap_append, hnews]
      exact List.append_nil _
    · rw [Event.IsTrue, Registry.slot?_blank, occupied]
      exact iff_of_false (fun h => by cases h) (fun h => by cases h)
    · rw [Event.replay?, if_pos (by rw [Registry.slot?_blank, occupied]; rfl), Registry.blank_remove]
  | @freed ticket next control alive vacant writes =>
    refine hw.writes writes alive dead (hnews ..) ?_ ?_
    · rw [Event.IsTrue, Registry.slot?_blank, Option.map_eq_none_iff, Option.isSome_eq_false_iff,
        Option.isNone_iff_eq_none]
    · rw [← Registry.isSome_slot?_blank, Registry.blank_remove]
      cases hs : (c.world.registryAt ticket.cell).blank.slot? ticket.id with
      | none =>
        rw [Registry.remove_of_absent hs]
        rfl
      | some slot => rw [Option.isSome_some, Event.replay?, if_pos (by rw [hs]; rfl)]
  | torn control dead' occupied writes => exact hw.silent writes dead rfl fun hm alive => absurd (hm ▸ dead') alive
  | cleared control dead' vacant writes => exact hw.silent writes dead rfl fun hm alive => absurd (hm ▸ dead') alive

theorem Trade.verbosity (h : c.Trade d) : d.world.verbosity = c.world.verbosity := by
  rcases h.rests_or_writes with h | ⟨m, r, news, h⟩
  · exact h.verbosity
  · exact h.verbosity

/-- A release that takes a value out of a registry tells so before the code that destroys the value begins. -/
theorem Trade.told_of_removed {ticket : Ticket} {s : Stored α} {next : Outcome α → Program α} (h : c.Trade d)
    (trace : c.world.verbosity = .trace) (control : c.control = .running (.call (.release ticket) next))
    (occupied : (c.world.registryAt ticket.cell).slot? ticket.id = some (.occupied s))
    (gone : (d.world.registryAt ticket.cell).slot? ticket.id = none) :
    d.world.journal = .destroyed s.serial :: .event (.released ticket.id true) ticket.cell c.thread .free ::
      c.world.journal ∧ d.control = .running s.value.onDestroy := by
  cases h with
  | rests h =>
    rw [h.registry, occupied] at gone
    cases gone
  | released control' alive occupied' writes runs =>
    rw [control] at control'
    cases control'
    rw [occupied] at occupied'
    cases occupied'
    rw [writes.journal, World.news_of_trace trace]
    exact ⟨rfl, runs⟩
  | freed control' alive vacant =>
    rw [control] at control'
    cases control'
    exact absurd occupied (vacant s)
  | reserved control' | exhausted control' | popped control' | torn control' | cleared control' =>
    rw [control] at control'
    cases control'
  | stored control' offer | failed control' offer | stuck control' offer =>
    rw [control] at control'
    cases control'
    cases offer

theorem faithful_empty {v : Verbosity} : (World.empty v : World α).Faithful n := by
  refine ⟨⟨.empty, rfl, fun _ => ?_⟩, fun before e after h => ?_⟩
  · rw [World.registryAt_of_none rfl, Registry.blank_empty]
  · exact absurd h.symm (List.append_ne_nil_of_right_ne_nil _ (List.cons_ne_nil _ _))

theorem Reaches.faithful {out : CellId → List (Thread × Stake)} (h : Reaches c d) (hc : Ledger.Sound Eq out c.ledger)
    (trace : c.world.verbosity = .trace) (hw : c.world.Faithful n) :
    d.world.verbosity = .trace ∧ d.world.Faithful n := by
  induction h with
  | refl => exact ⟨trace, hw⟩
  | tail h ih =>
    have hsound := h.sound tracks_eq hc
    have htrade := step_trade hsound
    exact ⟨htrade.verbosity.trans ih.1, htrade.faithful ih.1 (step_dead tracks_eq hsound) ih.2⟩

/-- **The journal tells what the registries are.**  At any time in a run in which the listener is told everything, the
events of each cell can be replayed on an empty registry: none comes where it does not fit, each was true when it was
told, and what comes out is the cell's registry without its values, while the cell has owners.  A release that removes a
value tells so before the code that destroys the value begins. -/
theorem journal_faithful {p : Program α} (h : Reaches (initial (World.empty .trace) p) c) :
    (∀ n, c.world.Faithful n) ∧
    ∀ ticket s next, c.control = .running (.call (.release ticket) next) →
      (c.world.registryAt ticket.cell).slot? ticket.id = some (.occupied s) →
      (c.step.world.registryAt ticket.cell).slot? ticket.id = none →
      c.step.world.journal = .destroyed s.serial :: .event (.released ticket.id true) ticket.cell c.thread .free ::
        c.world.journal ∧ c.step.control = .running s.value.onDestroy := by
  have hstart : Ledger.Sound Eq (fun _ => []) (initial (World.empty .trace) p).ledger :=
    Ledger.sound_of_nil tracks_eq rfl rfl rfl rfl
  have hfaithful := fun n => h.faithful (n := n) hstart rfl faithful_empty
  refine ⟨fun n => (hfaithful n).2, fun ticket s next control occupied gone => ?_⟩
  exact (step_trade (h.sound tracks_eq hstart)).told_of_removed (hfaithful 0).1 control occupied gone

/-- An id is reserved, filled and released. -/
def fillsAndReleases : Program String :=
  .call (.create (.named "a")) fun _ => .call (.reserve (.named "a")) fun _ =>
    .call (.set (.named "a") 1 (.plain "x")) fun _ => .call (.release ⟨1, 0⟩) fun _ => .idle

theorem journal_faithful_of_a_release : ∃ c : Config String, Reaches (initial (World.empty .trace) fillsAndReleases) c ∧
    c.world.Faithful 0 ∧ c.world.eventsOf 0 = [.reserved 1, .set 1] ∧
    c.step.world.journal = .destroyed 0 :: .event (.released 1 true) 0 0 .free :: c.world.journal := by
  obtain ⟨hfaithful, htold⟩ := journal_faithful (reaches_advance 6 (initial (World.empty .trace) fillsAndReleases))
  exact ⟨_, reaches_advance 6 _, hfaithful 0, rfl, (htold ⟨1, 0⟩ ⟨0, .plain "x"⟩ (fun _ => .idle) rfl rfl rfl).1⟩

end Config

end SlotRegistry
