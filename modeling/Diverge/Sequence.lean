import Diverge.Fault

/-!
# Sequences indexed from either end

An index below zero counts from the end of a sequence: `-1` is its last element.  An index that
falls outside on either side names no element, and one that does not fit into 64 bits is no index
at all.
-/

namespace Diverge

namespace Sequence

/-- The position that an index names in a sequence of the given length. -/
def position? (length : Nat) (index : Int) : Option Nat :=
  let place := if index < 0 then index + length else index
  if 0 ≤ place ∧ place < length then some place.toNat else none

/-- The element at an index. -/
def get? {α : Type} (elements : List α) (index : Int) : Option α :=
  (position? elements.length index).bind (elements[·]?)

/-- The sequence with the element at an index replaced. -/
def set? {α : Type} (elements : List α) (index : Int) (element : α) : Option (List α) :=
  (position? elements.length index).map (elements.set · element)

/-- The fault of an index that names no element. -/
def outside (index : Int) (fault : Fault) : Fault :=
  if ByteCount.isIndex index then fault else .indexSize

/-- The element at an index, or a fault if there is none. -/
def fetch {α : Type} (elements : List α) (index : Int) (fault : Fault) : Except Fault α :=
  (get? elements index).elim (.error (outside index fault)) .ok

/-- The sequence with the element at an index replaced, or a fault if there is none. -/
def replace {α : Type} (elements : List α) (index : Int) (element : α) :
    Except Fault (List α) :=
  (set? elements index element).elim (.error (outside index .listAssignment)) .ok

/-- The first `count` elements; a negative count drops that many from the end. -/
def take {α : Type} (elements : List α) (count : Int) : List α :=
  if count < 0 then elements.take (elements.length - count.natAbs) else elements.take count.toNat

theorem position?_lt {length position : Nat} {index : Int}
    (found : position? length index = some position) :
    position < length := by
  grind [position?]

theorem position?_natCast {length position : Nat} (inside : position < length) :
    position? length position = some position := by
  grind [position?]

end Sequence

end Diverge
