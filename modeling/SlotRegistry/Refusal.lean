import SlotRegistry.SlotId
import SlotRegistry.Outline
/-!
# Refusal — why a registry turned a request down

Every refusal leaves the registry as it was.  Each cause has a kind, which is its short name, and a message.
-/
namespace SlotRegistry

inductive Refusal
  /-- Every id other than the cursor is present. -/
  | noneLeft
  /-- Nothing is stored under the id. -/
  | absent (id : SlotId)
  /-- The id is reserved, but no value has been bound to it yet. -/
  | unset (id : SlotId)
  /-- The id is already present. -/
  | taken (id : SlotId)
  /-- The id was to be filled but is not reserved. -/
  | unreserved (id : SlotId)
  deriving DecidableEq, Repr

namespace Refusal

def kind : Refusal → String
  | noneLeft => "NoMoreAvailableValues"
  | absent _ => "NoSuchKey"
  | unset _ => "ValueNotSet"
  | taken _ => "AlreadyExists"
  | unreserved _ => "NotReserved"

/-- The id a refusal is about. -/
def id? : Refusal → Option SlotId
  | noneLeft => none
  | absent id | unset id | taken id | unreserved id => some id

def message : Refusal → String
  | noneLeft => "no more available values"
  | absent id => "no value with id " ++ toString id.toNat
  | unset id => "value with id " ++ toString id.toNat ++ " is not set"
  | taken id => "value with id " ++ toString id.toNat ++ " already exists"
  | unreserved id => "id " ++ toString id.toNat ++ " is not reserved"

/-- The refusal of a kind, about an id where the kind needs one. -/
def ofKind? (kind : String) (id : Option SlotId) : Option Refusal :=
  match kind with
  | "NoMoreAvailableValues" => some noneLeft
  | "NoSuchKey" => id.map absent
  | "ValueNotSet" => id.map unset
  | "AlreadyExists" => id.map taken
  | "NotReserved" => id.map unreserved
  | _ => none

def outline (r : Refusal) : Outline :=
  match r.id? with
  | none => .leaf r.kind
  | some id => .tuple r.kind [.leaf (toString id.toNat)]

/-- Where in a list a refusal stands, by position from `start`. -/
def positions (r : Refusal) (start : Nat) : List Refusal → List Nat
  | [] => []
  | s :: rest => if s = r then start :: positions r (start + 1) rest else positions r (start + 1) rest

end Refusal

end SlotRegistry
