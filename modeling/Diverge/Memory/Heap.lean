import Diverge.Assoc
import Diverge.Expr.Render
import Diverge.Memory.Contents

/-!
# Address spaces that share contents

An address space binds memory objects to contents.  A copy of a space binds the same contents, so
that copying is cheap; contents are duplicated only when one of the spaces writes.  Every space
has a key, and contents carry the key of the space that may write them in place.  A copy takes a
new key, and so does the space it was made from: neither owns what they share.

The heap holds all contents and all spaces under their identities, together with the table of
expressions.
-/

namespace Diverge

/-- The bindings of an address space, in the order of their making. -/
structure Space where
  /-- The key that marks contents as owned by this space. -/
  key : Nat
  bindings : Assoc MemoryObject Nat
  deriving Inhabited

namespace Space

/-- The bindings by the numbers of the objects, those of one number in the order of binding. -/
def objects (space : Space) : List (MemoryObject × Nat) :=
  space.bindings.mergeSort fun left right => left.1.number ≤ right.1.number

/-- The first listed object that contains an address. -/
def resolve (space : Space) (address : Int) : Option (MemoryObject × Nat) :=
  space.objects.find? fun binding => binding.1.contains address

/-- The text of a space; the whereabouts of contents are not told. -/
def render (space : Space) : Except Fault String := do
  let bindings ← space.objects.mapM fun binding => do
    pure ("MO" ++ (← renderInteger binding.1.number) ++ ":0x?")
  pure ("\x7b" ++ ", ".intercalate bindings ++ "\x7d")

end Space

/-- All contents and address spaces, by identity. -/
structure Heap where
  table : Table := {}
  contents : Array Contents := #[]
  spaces : Array Space := #[]
  /-- The next key of an address space. -/
  nextKey : Nat := 1

/-- Computations on a heap; a fault leaves the heap as it was when the fault arose. -/
abbrev HeapM := EStateM Fault Heap

namespace Heap

/-- The contents of a given identity. -/
def contentsAt (heap : Heap) (identity : Nat) : Contents :=
  heap.contents.getD identity default

/-- The space of a given identity. -/
def spaceAt (heap : Heap) (identity : Nat) : Space :=
  heap.spaces.getD identity default

/-- Build expressions on a heap. -/
def build {α : Type} (action : Build α) : HeapM α := fun heap =>
  match action heap.table with
  | .ok result table => .ok result { heap with table }
  | .error fault table => .error fault { heap with table }

/-- Change contents in place. -/
def onContents {α : Type} (identity : Nat) (action : EStateM Fault Contents α) : HeapM α :=
  fun heap =>
    match action (heap.contentsAt identity) with
    | .ok result changed =>
        .ok result { heap with contents := heap.contents.setIfInBounds identity changed }
    | .error fault changed =>
        .error fault { heap with contents := heap.contents.setIfInBounds identity changed }

/-- Change a space in place. -/
def onSpace (identity : Nat) (change : Space → Space) : HeapM Unit :=
  modify fun heap =>
    { heap with spaces := heap.spaces.setIfInBounds identity (change (heap.spaceAt identity)) }

/-- Take up new contents. -/
def addContents (contents : Contents) : HeapM Nat := fun heap =>
  .ok heap.contents.size { heap with contents := heap.contents.push contents }

/-- New contents for an object. -/
def newContents (object : MemoryObject) (given : Option (List UInt8)) : HeapM Nat := do
  addContents (← build (Contents.initial object given))

/-- New contents with the bytes of others. -/
def copyContents (identity : Nat) : HeapM Nat := do
  addContents ((← get).contentsAt identity).copy

/-- Replace all bytes by the elements of an array. -/
def makeSymbolic (identity : Nat) (array : ArrayDecl) : HeapM Unit := do
  let changed ← build (((← get).contentsAt identity).symbolic array)
  onContents identity (set changed)

/-- Build a byte and write it into contents. -/
def writeByte (identity : Nat) (offset : Int) (byte : Build Expr) : HeapM Unit := do
  let value ← build byte
  onContents identity (Contents.writeByte offset value)

/-- Write `count` bytes of a value from its byte `place` on, one after another. -/
def writeBytes (identity : Nat) (offset : Int) (value : Expr) (place : Nat) :
    (count : Nat) → HeapM Unit
  | 0 => pure ()
  | count + 1 => do
      writeByte identity (offset + place) (Build.extract value (8 * place) 8)
      writeBytes identity offset value (place + 1) count

/-- Write a value into contents, the least significant byte first; a single bit takes a byte. -/
def write (identity : Nat) (offset : Int) (value : Expr) : HeapM Unit :=
  if value.width = 1 then writeByte identity offset (Build.zext value 8)
  else writeBytes identity offset value 0 (value.width / 8).toNat

/-- A key that no space has had. -/
def takeKey : HeapM Nat := fun heap =>
  .ok heap.nextKey { heap with nextKey := heap.nextKey + 1 }

/-- Take up a new space. -/
def addSpace (space : Space) : HeapM Nat := fun heap =>
  .ok heap.spaces.size { heap with spaces := heap.spaces.push space }

/-- A space that binds nothing. -/
def newSpace : HeapM Nat := do
  addSpace { key := ← takeKey, bindings := [] }

/-- A space with the bindings of another; both take new keys. -/
def copySpace (identity : Nat) : HeapM Nat := do
  let key ← takeKey
  let clone ← addSpace { key, bindings := ((← get).spaceAt identity).bindings }
  let renewed ← takeKey
  onSpace identity ({ · with key := renewed })
  pure clone

/-- Bind an object to contents that nobody else owns. -/
def bind (space : Nat) (object : MemoryObject) (contents : Nat) : HeapM Unit := do
  let key := ((← get).spaceAt space).key
  let owner := ((← get).contentsAt contents).owner
  if owner ≠ 0 ∧ owner ≠ key then throw (.telling .sharedObject object.number)
  onContents contents (modify ({ · with owner := key }))
  onSpace space fun old => { old with bindings := old.bindings.put object contents }

/-- Drop the binding of an object, if there is one. -/
def unbind (space : Nat) (object : MemoryObject) : HeapM Unit :=
  onSpace space fun old => { old with bindings := old.bindings.erase object }

/-- The contents that a space binds an object to. -/
def find? (heap : Heap) (space : Nat) (object : MemoryObject) : Option Nat :=
  (heap.spaceAt space).bindings.get? object

/--
Contents of an object that the space may write in place: the given ones if the space owns them,
else a copy, which takes their place in the space.
-/
def writeable (space : Nat) (object : MemoryObject) (contents : Nat) : HeapM Nat := do
  let current := (← get).contentsAt contents
  if current.readOnly then throw (.telling .readOnlyObject object.number)
  if current.owner = ((← get).spaceAt space).key then pure contents
  else
    let copied ← copyContents contents
    bind space object copied
    pure copied

end Heap

end Diverge
