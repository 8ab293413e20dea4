import Diverge.State.Life

/-!
# Merging states

A state can take another one in when both stand at the same instruction, with the same symbolic
objects, the same stack of functions and the same bound objects.  What the two agree on stays.
Where a register or a byte differs, it becomes a choice, guarded by the constraints that only the
receiver has; if the two run different revisions the choice is a revision select.  The constraints
become those of both, and the disjunction of what remains on either side.
-/

namespace Diverge

namespace ExecState

/-- The same objects were made symbolic, in the same order, with the same arrays. -/
def sameSymbolics (left right : ExecState) : Bool :=
  left.symbolics == right.symbolics

/-- Frame by frame, the same function was entered from the same instruction. -/
def sameShape (left right : ExecState) : Bool :=
  left.stack.length == right.stack.length &&
    (left.stack.zip right.stack).all fun (first, second) =>
      Instruction.same? first.caller second.caller && first.function.same second.function

/-- The states stand at the same place with the same symbolic objects and the same frames. -/
def comparable (left right : ExecState) : Bool :=
  Instruction.same? left.pc right.pc && left.sameSymbolics right && left.sameShape right

/-- The value of a register or byte after a merge, `guard` telling when the receiver's is meant. -/
def mergedValue (receiver other : ExecState) (guard first second : Expr) : Build Expr :=
  if first.same second then pure first
  else if receiver.patch ≠ other.patch then
    Build.patchSelect guard first second receiver.patch other.patch
  else Build.select guard first second

end ExecState

/-- How the constraints of two states overlap. -/
structure Overlap where
  /-- The constraints of both, in the order of the first. -/
  common : List Expr
  firstOnly : List Expr
  secondOnly : List Expr

/-- The overlap of two constraint sets. -/
def ConstraintSet.overlap (first second : ConstraintSet) : Overlap :=
  let common := first.entries.filter second.contains
  let isOwn (constraint : Expr) : Bool := !common.any (·.same constraint)
  { common, firstOnly := first.entries.filter isOwn, secondOnly := second.entries.filter isOwn }

/-- The registers after a merge; one that either side leaves undefined keeps its value. -/
def mergeLocals (value : Expr → Expr → Build Expr) :
    List (Option Expr) → List (Option Expr) → Build (List (Option Expr))
  | some first :: firsts, some second :: seconds => do
      let merged ← value first second
      pure (some merged :: (← mergeLocals value firsts seconds))
  | first :: firsts, _ :: seconds => do
      pure (first :: (← mergeLocals value firsts seconds))
  | firsts, [] => pure firsts
  | [], _ => pure []

/-- The frames after a merge. -/
def mergeFrames (value : Expr → Expr → Build Expr) :
    List Frame → List Frame → Build (List Frame)
  | first :: firsts, second :: seconds => do
      let locals ← mergeLocals value first.locals second.locals
      pure ({ first with locals } :: (← mergeFrames value firsts seconds))
  | firsts, [] => pure firsts
  | [], _ => pure []

/-- What a comparison of the bound objects of two states shows. -/
structure Comparison where
  /-- What is told of it. -/
  lines : List String
  /-- The objects bound to different contents, or nothing if the states bind different objects. -/
  mutated : Option (List MemoryObject)

namespace Comparison

/-- A line that ends in a number; there is none if the number cannot be written. -/
def numbered (label : String) (number : Int) : List String :=
  (Integer.text? number).toList.map (label ++ ·)

/-- Compare two listings of bound objects. -/
def ofObjects : List (MemoryObject × Nat) → List (MemoryObject × Nat) → Comparison
  | [], [] => { lines := [], mutated := some [] }
  | (first, firstContents) :: firsts, (second, secondContents) :: seconds =>
      if first ≠ second then
        let lines :=
          if first.number < second.number then numbered "\t\tB misses binding for: " first.number
          else numbered "\t\tA misses binding for: " second.number
        { lines, mutated := none }
      else
        let rest := ofObjects firsts seconds
        if firstContents = secondContents then rest
        else
          { lines := numbered "\t\tmutated: " first.number ++ rest.lines
            mutated := rest.mutated.map (first :: ·) }
  | _, _ => { lines := ["\t\tmappings differ"], mutated := none }

end Comparison

namespace Execution

/-- Tell something about a merge, if the options ask for it. -/
def trace (options : Options) (line : String) : ExecutionM Unit :=
  if options.traceMerges then tell line else pure ()

/-- Tell something that may not have a text; what has none is not told. -/
def traceText (options : Options) (label : String) : Except Fault String → ExecutionM Unit
  | .ok text => trace options (label ++ text)
  | .error _ => pure ()

/-- Tell the expressions under a label; they must have a text even if nothing is told. -/
def traceList (options : Options) (label : String) (expressions : List Expr) :
    ExecutionM Unit := do
  let text ← ofExcept (renderList expressions)
  trace options ("\t" ++ label ++ ": " ++ text)

/-- Tell how the constraints of two states overlap. -/
def traceOverlap (options : Options) (overlap : Overlap) : ExecutionM Unit := do
  traceList options "constraint prefix" overlap.common
  traceList options "A suffix" overlap.firstOnly
  traceList options "B suffix" overlap.secondOnly

/-- Merge the byte at an offset of an object. -/
def mergeByte (value : Expr → Expr → Build Expr) (target source : Nat) (offset : Nat) :
    HeapM Unit := do
  let first ← ofExcept (((← get).contentsAt target).readByte offset)
  let second ← ofExcept (((← get).contentsAt source).readByte offset)
  let merged ← Heap.build (value first second)
  Heap.onContents target (Contents.writeByte offset merged)

/-- Merge `count` bytes from an offset on, one after another. -/
def mergeBytes (value : Expr → Expr → Build Expr) (target source : Nat) (offset : Nat) :
    (count : Nat) → HeapM Unit
  | 0 => pure ()
  | count + 1 => do
      mergeByte value target source offset
      mergeBytes value target source (offset + 1) count

/-- Merge the bytes of an object that the two spaces bind to different contents. -/
def mergeObject (value : Expr → Expr → Build Expr) (space other : Nat) (object : MemoryObject) :
    HeapM Unit := do
  let heap ← get
  match heap.find? space object, heap.find? other object with
  | some contents, some source =>
      let target ← Heap.writeable space object contents
      mergeBytes value target source 0 object.size.toNat
  | _, _ => pure ()

/-- Compare the memory of two states, telling what is found. -/
def compareMemory (options : Options) (left right : Space) :
    ExecutionM (Option (List MemoryObject)) := do
  trace options "\tchecking object states"
  traceText options "A: " left.render
  traceText options "B: " right.render
  let comparison := Comparison.ofObjects left.objects right.objects
  comparison.lines.forM (trace options)
  pure comparison.mutated

/--
Take registers, bytes and constraints of another state in, `mutated` being the objects that the
two bind to different contents.
-/
def absorb (place : Nat) (receiver other : ExecState) (overlap : Overlap)
    (mutated : List MemoryObject) : ExecutionM Unit := do
  let inReceiver ← build (Build.conjunction overlap.firstOnly)
  let inOther ← build (Build.conjunction overlap.secondOnly)
  let value := receiver.mergedValue other inReceiver
  let stack ← build (mergeFrames value receiver.stack other.stack)
  onState place ({ · with stack })
  onHeap (mutated.forM (mergeObject value receiver.space other.space))
  onState place ({ · with constraints := {} })
  overlap.common.forM (addConstraint place)
  addConstraint place (← build (Build.binary .or inReceiver inOther))

/-- Tell the constraints with which a merge ends, if they have a text. -/
def traceMerged (place : Nat) : ExecutionM Unit := do
  let state := (← get).stateAt place
  traceText state.options ("\tmerged into A:" ++ toString (place + 1) ++ " with constraints ")
    state.constraints.render

/-- Merge another state into a state; the answer is whether the two could be merged. -/
def merge (place otherPlace : Nat) : ExecutionM Bool := do
  let receiver := (← get).stateAt place
  let other := (← get).stateAt otherPlace
  trace receiver.options ("-- attempting merge of A:" ++ toString (place + 1) ++ " with B:" ++
    toString (otherPlace + 1) ++ "--")
  if receiver.comparable other then
    let overlap := receiver.constraints.overlap other.constraints
    traceOverlap receiver.options overlap
    let heap := (← get).heap
    match ← compareMemory receiver.options (heap.spaceAt receiver.space)
        (heap.spaceAt other.space) with
    | none => pure false
    | some mutated =>
        absorb place receiver other overlap mutated
        traceMerged place
        pure true
  else pure false

end Execution

end Diverge
