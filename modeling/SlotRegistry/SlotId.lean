/-!
# SlotId — the ring of ids

An id is a 16-bit word, and the ids form a ring: after 65535 comes 0.
-/
namespace SlotRegistry

abbrev SlotId := UInt16

namespace SlotId

/-- How many ids there are. -/
def count : Nat := 65536

end SlotId

end SlotRegistry
