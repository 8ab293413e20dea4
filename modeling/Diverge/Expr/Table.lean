import Diverge.Buckets
import Diverge.Fault
import Diverge.Expr.Basic

/-!
# The table of nodes

A node that is built twice is one node.  The table remembers every node by its *key*: its width,
whether it is multi, and its shape, in which operands stand by their identities.  A key that the
table knows gets the identity it has; any other key gets the next one.

Building runs in the monad `Build`: a table that grows, and faults that leave the table as it was
when they arose.
-/

namespace Diverge

/-- What tells one node from another apart from its width, operands standing by identity. -/
inductive Shape where
  | const (value : Int)
  | notOptimized (source : Nat)
  /-- A history stands by its array and its newest write. -/
  | read (array : Nat) (newest : Option Nat) (index : Nat)
  | select (patches : Option (Int × Int)) (cond onTrue onFalse : Nat)
  | concat (high low : Nat)
  /-- The offset may be missing where a node put together by hand was rebuilt. -/
  | extract (offset : Option Int) (source : Nat)
  | zext (source : Nat)
  | sext (source : Nat)
  | not (source : Nat)
  | binary (operator : BinaryOp) (left right : Nat)
  deriving DecidableEq, Repr

/-- A number by which the nodes of a table are spread over its buckets. -/
def Shape.code : Shape → Nat
  | .const value => value.natAbs % 4093
  | .notOptimized source | .extract _ source | .zext source | .sext source | .not source => source
  | .read _ newest index => newest.getD 0 + 31 * index
  | .select _ cond onTrue onFalse => cond + 31 * onTrue + 61 * onFalse
  | .concat left right | .binary _ left right => left + 31 * right

/-- What tells one node from another. -/
structure Key where
  shape : Shape
  width : Int
  multi : Bool
  /-- The operand by which a node put together by hand was marked as multi. -/
  mark : Option Nat := none
  deriving DecidableEq, Repr

/-- Where a key stands in a table. -/
def Key.path (key : Key) : List Bool :=
  Buckets.turns 12 (key.shape.code + 17 * key.width.natAbs)

/-- The known nodes and the next identity. -/
structure Table where
  known : Buckets (Key × Nat) := .empty
  next : Nat := 0

namespace Table

/-- The table that knows no node. -/
def empty : Table := {}

/-- The identity of a known node. -/
def find? (table : Table) (key : Key) : Option Nat :=
  (table.known.get key.path).lookup key

/-- Make a node known under the next identity. -/
def insert (table : Table) (key : Key) : Table :=
  { known := table.known.put (key, table.next) key.path, next := table.next + 1 }

@[simp]
theorem find?_empty (key : Key) : empty.find? key = none := by
  simp [find?, empty]

@[simp]
theorem find?_insert_self (table : Table) (key : Key) :
    (table.insert key).find? key = some table.next := by
  simp [find?, insert]

theorem find?_insert_of_ne (table : Table) {key other : Key} (different : key ≠ other) :
    (table.insert key).find? other = table.find? other := by
  by_cases together : key.path = other.path
  · have apart : (other == key) = false := by simp [different.symm]
    simp [find?, insert, ← together, List.lookup_cons, apart]
  · simp [find?, insert, Buckets.get_put_of_ne _ _ together]

@[simp]
theorem next_insert (table : Table) (key : Key) :
    (table.insert key).next = table.next + 1 := rfl

end Table

/-- Computations that may add nodes to a table. -/
abbrev Build := EStateM Fault Table

namespace Build

/-- An identity that nothing else has. -/
def fresh : Build Nat := fun table =>
  .ok table.next { table with next := table.next + 1 }

/-- The identity of the node with the given key. -/
def intern (key : Key) : Build Nat := fun table =>
  match table.find? key with
  | some id => .ok id table
  | none => .ok table.next (table.insert key)

/-- The tag of the node with the given shape and width. -/
def tag (shape : Shape) (width : Int) (multi : Bool) : Build Tag := do
  let id ← intern { shape, width, multi }
  pure { id, width, multi }

/-- The tag of a node that an operand marks as multi. -/
def markedTag (shape : Shape) (width : Int) (mark : Expr) : Build Tag := do
  let id ← intern { shape, width, multi := true, mark := some mark.id }
  pure { id, width, multi := true }

/-- Declare a new array. -/
def array (name : String) (size : Int) (contents : Option (List Int)) (domain range : Int) :
    Build ArrayDecl := do
  pure { id := ← fresh, name, size, contents, domain, range }

/-- Write on top of a history. -/
def write (older : Updates) (index value : Expr) : Build Updates := do
  pure (.write (← fresh) index value older)

/--
A node put together by hand.  It is never shared, nothing is simplified, and it is multi only if
that is asked for.
-/
def assemble (kind : Option Kind) (width : Int) (kids : List Expr) (value : Option Int)
    (multi : Bool) : Build Expr := do
  let tag : Tag := { id := ← fresh, width, multi }
  match kind, kids, value with
  | some .constant, [], some value => pure (.const tag value)
  | some .notOptimized, [source], none => pure (.notOptimized tag source)
  | some .select, [cond, onTrue, onFalse], none => pure (.select tag none cond onTrue onFalse)
  | some .concat, [high, low], none => pure (.concat tag high low)
  | some .zext, [source], none => pure (.zext tag source)
  | some .sext, [source], none => pure (.sext tag source)
  | some .not, [source], none => pure (.not tag source)
  | some (.binary operator), [left, right], none => pure (.binary tag operator left right)
  | _, _, _ => pure (.loose tag kind value kids)

end Build

end Diverge
