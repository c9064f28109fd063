/-!
# Datum — the data a registry keeps

A datum is nothing, a truth value, a whole number, a text, a list or a record.  A record's fields stand in the order
of their labels, each label once, so that equal records are equal terms; equality is decidable.
-/
namespace SlotRegistry

inductive Datum
  | null
  | flag (value : Bool)
  | number (value : Int)
  | text (value : String)
  | list (items : List Datum)
  | record (fields : List (String × Datum))

namespace Datum

instance : Inhabited Datum := ⟨null⟩

mutual

def decEq : (a b : Datum) → Decidable (a = b)
  | null, null => isTrue rfl
  | flag x, flag y => decidable_of_iff (x = y) (by simp)
  | number x, number y => decidable_of_iff (x = y) (by simp)
  | text x, text y => decidable_of_iff (x = y) (by simp)
  | list xs, list ys => have := decEqItems xs ys; decidable_of_iff (xs = ys) (by simp)
  | record xs, record ys => have := decEqFields xs ys; decidable_of_iff (xs = ys) (by simp)
  | null, flag _ | null, number _ | null, text _ | null, list _ | null, record _ => isFalse (by simp)
  | flag _, null | flag _, number _ | flag _, text _ | flag _, list _ | flag _, record _ => isFalse (by simp)
  | number _, null | number _, flag _ | number _, text _ | number _, list _ | number _, record _ => isFalse (by simp)
  | text _, null | text _, flag _ | text _, number _ | text _, list _ | text _, record _ => isFalse (by simp)
  | list _, null | list _, flag _ | list _, number _ | list _, text _ | list _, record _ => isFalse (by simp)
  | record _, null | record _, flag _ | record _, number _ | record _, text _ | record _, list _ => isFalse (by simp)

def decEqItems : (xs ys : List Datum) → Decidable (xs = ys)
  | [], [] => isTrue rfl
  | [], _ :: _ => isFalse (by simp)
  | _ :: _, [] => isFalse (by simp)
  | x :: xs, y :: ys =>
    have := decEq x y
    have := decEqItems xs ys
    decidable_of_iff (x = y ∧ xs = ys) (by simp)

def decEqFields : (xs ys : List (String × Datum)) → Decidable (xs = ys)
  | [], [] => isTrue rfl
  | [], _ :: _ => isFalse (by simp)
  | _ :: _, [] => isFalse (by simp)
  | (k, x) :: xs, (l, y) :: ys =>
    have := decEq x y
    have := decEqFields xs ys
    decidable_of_iff ((k = l ∧ x = y) ∧ xs = ys) (by simp)

end

instance : DecidableEq Datum := decEq

/-- One more field: it takes its place among the labels, and the place of an earlier field of its label. -/
def insertField (label : String) (value : Datum) : List (String × Datum) → List (String × Datum)
  | [] => [(label, value)]
  | (l, v) :: rest =>
    if label = l then (label, value) :: rest
    else if label < l then (label, value) :: (l, v) :: rest
    else (l, v) :: insertField label value rest

/-- The record of some fields; of two fields with one label the later counts. -/
def ofFields (fields : List (String × Datum)) : Datum :=
  record (fields.foldl (fun kept f => insertField f.1 f.2 kept) [])

end Datum

end SlotRegistry
