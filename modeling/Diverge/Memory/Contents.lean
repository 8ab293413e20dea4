import Diverge.Expr.Build

/-!
# Memory objects and their contents

A memory object is a range of addresses.  Its contents are byte expressions, lowest address
first; a value wider than a byte lies there with its least significant byte first.  Contents also
say whether they may be written and which address space owns them, zero standing for none.
-/

namespace Diverge

/-- A range of addresses. -/
structure MemoryObject where
  /-- The identity of the object. -/
  key : Nat
  /-- The number under which the object is listed; objects may share one. -/
  number : Int
  address : Int
  size : Int
  name : String
  allocSite : Option String
  isLocal : Bool
  deriving DecidableEq, Repr, Inhabited

namespace MemoryObject

/-- Whether an address lies in the object. -/
def contains (object : MemoryObject) (address : Int) : Bool :=
  object.address ≤ address && address < object.address + object.size

/-- The address of the object as an expression. -/
def base (object : MemoryObject) : Build Expr :=
  Build.pointer object.address

end MemoryObject

/-- The bytes of a memory object. -/
structure Contents where
  object : MemoryObject
  readOnly : Bool
  /-- The key of the owning address space, zero if none owns them. -/
  owner : Nat
  bytes : List Expr
  deriving Inhabited

namespace Contents

/-- The number of bytes. -/
def size (contents : Contents) : Nat :=
  contents.bytes.length

/-- Constant bytes. -/
def constants (values : List Int) : Build (List Expr) :=
  values.mapM fun value => Build.constant value 8

/--
Contents for an object that nobody owns yet.  Given bytes are cut to the size of the object and
filled up with zeros; without given bytes all are zero.
-/
def initial (object : MemoryObject) (given : Option (List UInt8)) : Build Contents := do
  let values ← match given with
    | some values => pure (values.map fun byte => (byte.toNat : Int))
    | none => do
        let count ← ofExcept ((ByteCount.ofInt object.size).mapError Fault.count)
        pure (List.replicate count 0)
  let kept := Sequence.take values object.size
  let filling := List.replicate (object.size - kept.length).toNat 0
  pure { object, readOnly := false, owner := 0, bytes := ← constants (kept ++ filling) }

/-- Contents with the same bytes that nobody owns. -/
def copy (contents : Contents) : Contents :=
  { contents with owner := 0 }

/-- Replace every byte by the element of an array at its offset. -/
def symbolic (contents : Contents) (array : ArrayDecl) : Build Contents := do
  let bytes ← (List.range contents.size).mapM fun (offset : Nat) => do
    Build.read (.root array) (← Build.constant offset array.domain)
  pure { contents with bytes }

/-- The byte at an offset. -/
def readByte (contents : Contents) (offset : Int) : Except Fault Expr :=
  Sequence.fetch contents.bytes offset .listIndex

/-- The bytes from an offset on, the most significant first, which is the order of reading. -/
def readBytes (contents : Contents) (offset : Int) : (count : Nat) → Except Fault (List Expr)
  | 0 => .ok []
  | count + 1 => do
      let highest ← contents.readByte (offset + count)
      pure (highest :: (← contents.readBytes offset count))

/-- The value of the given width at an offset. -/
def read (contents : Contents) (offset width : Int) : Build Expr := do
  if width = 1 then
    Build.extract (← ofExcept (contents.readByte offset)) 0 1
  else
    Build.concatAll (← ofExcept (contents.readBytes offset (width / 8).toNat))

/-- Overwrite the byte at an offset. -/
def writeByte (offset : Int) (value : Expr) : EStateM Fault Contents Unit := do
  if value.width ≠ 8 then throw (.telling .byteWidth value.width)
  let bytes ← ofExcept (Sequence.replace (← get).bytes offset value)
  modify ({ · with bytes })

/-- The value of a constant as a byte. -/
def byteOf : Option Int → Except Fault UInt8
  | some value =>
      if 0 ≤ value ∧ value < 256 then .ok (UInt8.ofNat value.toNat) else .error .byteRange
  | none => .error .absentByte

/-- The bytes as numbers, if all of them are constants. -/
def concrete (contents : Contents) : Except Fault (Option (List UInt8)) :=
  if contents.bytes.all Expr.isConstant then do
    pure (some (← contents.bytes.mapM fun byte => byteOf byte.value?))
  else pure none

end Contents

namespace Build

/-- Declare a new memory object. -/
def memoryObject (number address size : Int) (name : String) (allocSite : Option String)
    (isLocal : Bool) : Build MemoryObject := do
  pure { key := ← fresh, number, address, size, name, allocSite, isLocal }

end Build

end Diverge
