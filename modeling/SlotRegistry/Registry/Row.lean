import SlotRegistry.Runs
/-!
# Row — reserving many ids in a row
-/
namespace SlotRegistry
namespace Registry

/-- Reserves up to `n` ids, after those reserved before, and stops when one is refused. -/
def reserveRow {α : Type} (r : Registry α) : Nat → Runs → Runs × Option Refusal × Registry α
  | 0, ids => (ids, none, r)
  | n + 1, ids =>
    match r.reserve with
    | .ok (id, r) => r.reserveRow n (ids.push id)
    | .error why => (ids, some why, r)

end Registry

end SlotRegistry
