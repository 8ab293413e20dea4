import Diverge.Constraints
import Diverge.Memory.Heap
import Diverge.Program

/-!
# Execution states

An execution state is one path through the program: where it stands, its frames, its memory, and
the constraints under which it is taken.  The states, the heap they share and the rendezvous at
which they wait for each other form an execution.  A state and a rendezvous are referred to by
their place in it; the number of a state is its place counted from one.
-/

namespace Diverge

/-- An activation of a function. -/
structure Frame where
  caller : Option Instruction
  function : Function
  /-- The objects that live as long as the frame. -/
  allocas : List MemoryObject
  locals : List (Option Expr)
  /-- Objects of other frames that were read, with an offset and a value. -/
  nonLocalsRead : Assoc MemoryObject (Expr × Expr)
  /-- Objects of other frames that were written, with an offset and a value. -/
  nonLocalsWritten : Assoc MemoryObject (Expr × Expr)
  deriving Inhabited

/-- A frame on entry to a function: no register is defined. -/
def Frame.enter (caller : Option Instruction) (function : Function) : Except Fault Frame := do
  let count ← (ByteCount.ofLength function.registers).mapError Fault.count
  pure
    { caller, function, allocas := [], locals := List.replicate count none
      nonLocalsRead := [], nonLocalsWritten := [] }

/-- The phases of unwinding the stack after an exception. -/
inductive UnwindingPhase where
  | search
  | cleanup
  deriving DecidableEq, Repr

/-- The name of a phase. -/
def UnwindingPhase.name : UnwindingPhase → String
  | .search => "SEARCH_PHASE"
  | .cleanup => "CLEANUP_PHASE"

/-- The phase of a given name. -/
def UnwindingPhase.ofName? (text : String) : Option UnwindingPhase :=
  [UnwindingPhase.search, .cleanup].find? (·.name == text)

/-- How far unwinding has come. -/
structure Unwinding where
  phase : UnwindingPhase
  exception : Option MemoryObject
  /-- While searching, the frame being inspected. -/
  progress : Int
  /-- While cleaning up, the frame that will catch. -/
  catching : Int
  /-- While cleaning up, the handler that was selected. -/
  handler : Int

/-- What a forked state takes over: only what its phase uses. -/
def Unwinding.inherit (unwinding : Unwinding) : Unwinding :=
  match unwinding.phase with
  | .search => { unwinding with catching := 0, handler := 0 }
  | .cleanup => { unwinding with progress := 0 }

/-- One path through the program. -/
structure ExecState where
  options : Options
  /-- The revision that the state runs. -/
  patch : Option Int
  pc : Option Instruction
  prevPc : Option Instruction
  /-- The frames, the oldest first. -/
  stack : List Frame
  /-- How many forks lie behind the state. -/
  depth : Nat
  /-- The address space of the state. -/
  space : Nat
  constraints : ConstraintSet
  /-- The lines covered, by file. -/
  covered : Assoc String (List Int)
  /-- The objects made symbolic, with their arrays. -/
  symbolics : List (MemoryObject × ArrayDecl)
  /-- Conditions preferred in a counterexample. -/
  preferences : List Expr
  arrayNames : List String
  /-- The rendezvous that the state has opened and not closed. -/
  openMerges : List Nat
  unwinding : Option Unwinding
  coveredNew : Bool
  /-- What is known of the memory of functions, by name. -/
  info : Assoc String String
  deriving Inhabited

/-- The text of a state. -/
def ExecState.describe (state : ExecState) (number : Nat) : Except Fault String := do
  let pc ← (state.pc).elim (.error (.absent "id")) fun pc => renderInteger pc.number
  let patch ← renderValue? state.patch
  pure ("ExecutionState(id=" ++ toString number ++ ", pc=" ++ pc ++ ", depth=" ++
    toString state.depth ++ ", patch_no=" ++ patch ++ ")")

/-- All states, the heap they share, and the rendezvous. -/
structure Execution where
  heap : Heap := {}
  states : Array ExecState := #[]
  /-- The states that wait at each rendezvous. -/
  rendezvous : Array (List Nat) := #[]
  /-- What was told, the latest last. -/
  log : List String := []

/-- Computations on an execution; a fault leaves the execution as it was when the fault arose. -/
abbrev ExecutionM := EStateM Fault Execution

namespace Execution

/-- The state at a place. -/
def stateAt (execution : Execution) (place : Nat) : ExecState :=
  execution.states.getD place default

/-- The states waiting at a rendezvous. -/
def waiting (execution : Execution) (place : Nat) : List Nat :=
  execution.rendezvous.getD place []

/-- Compute on the heap. -/
def onHeap {α : Type} (action : HeapM α) : ExecutionM α := fun execution =>
  match action execution.heap with
  | .ok result heap => .ok result { execution with heap }
  | .error fault heap => .error fault { execution with heap }

/-- Build expressions. -/
def build {α : Type} (action : Build α) : ExecutionM α :=
  onHeap (Heap.build action)

/-- Change a state. -/
def onState (place : Nat) (change : ExecState → ExecState) : ExecutionM Unit :=
  modify fun execution =>
    { execution with
      states := execution.states.setIfInBounds place (change (execution.stateAt place)) }

/-- Change the constraints of a state. -/
def onConstraints (place : Nat) (action : EStateM Fault ConstraintSet Unit) : ExecutionM Unit := do
  match action ((← get).stateAt place).constraints with
  | .ok _ constraints => onState place ({ · with constraints })
  | .error fault constraints => do
      onState place ({ · with constraints })
      throw fault

/-- Change who waits at a rendezvous. -/
def onWaiting (place : Nat) (change : List Nat → List Nat) : ExecutionM Unit :=
  modify fun execution =>
    { execution with
      rendezvous := execution.rendezvous.setIfInBounds place (change (execution.waiting place)) }

/-- Tell something. -/
def tell (line : String) : ExecutionM Unit :=
  modify fun execution => { execution with log := execution.log ++ [line] }

end Execution

end Diverge
