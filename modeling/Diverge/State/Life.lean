import Diverge.State.Basic

/-!
# The life of a state

States come into being at the first instruction of a function or by forking, open and close
rendezvous, push and pop frames, and end.  A forked state waits wherever the state it was forked
from waits.  A popped frame takes the bindings of its own objects with it.
-/

namespace Diverge

/-- A rendezvous and a state that has opened it. -/
structure Registration where
  meeting : Nat
  place : Nat

namespace Execution

/-- Enter a function. -/
def pushFrame (place : Nat) (caller : Option Instruction) (function : Function) :
    ExecutionM Unit := do
  let frame ← ofExcept (Frame.enter caller function)
  onState place fun state => { state with stack := state.stack ++ [frame] }

/-- A new state at the start of a function, which it enters when all else is there. -/
def newState (function : Function) (patch : Option Int) (options : Options) : ExecutionM Nat := do
  match function.instructions.head? with
  | none => throw .listIndex
  | some first =>
      let space ← onHeap Heap.newSpace
      let state : ExecState :=
        { options, patch, pc := some first, prevPc := some first
          stack := [], depth := 0, space, constraints := {}
          covered := [], symbolics := [], preferences := [], arrayNames := [], openMerges := []
          unwinding := none, coveredNew := false, info := [] }
      let place := (← get).states.size
      modify fun execution => { execution with states := execution.states.push state }
      pushFrame place none function
      pure place

/-- Let a state wait at a rendezvous. -/
def addWaiting (meeting place : Nat) : ExecutionM Unit :=
  onWaiting meeting (· ++ [place])

/-- Let a state wait once less at a rendezvous. -/
def removeWaiting (meeting place : Nat) : ExecutionM Unit :=
  onWaiting meeting (·.erase place)

/-- Fork a state: both go on from where it stands, with memory shared until one writes. -/
def fork (place : Nat) : ExecutionM Nat := do
  onState place fun state => { state with depth := state.depth + 1 }
  let parent := (← get).stateAt place
  let space ← onHeap (Heap.copySpace parent.space)
  let child : ExecState :=
    { parent with
      space, covered := [], coveredNew := false
      unwinding := parent.unwinding.map Unwinding.inherit }
  let newPlace := (← get).states.size
  modify fun execution => { execution with states := execution.states.push child }
  parent.openMerges.forM fun meeting => addWaiting meeting newPlace
  tell ("forked state " ++ toString (place + 1) ++ " into " ++ toString (newPlace + 1) ++
    " at depth " ++ toString parent.depth)
  pure newPlace

/-- A rendezvous at which nobody waits. -/
def newRendezvous : ExecutionM Nat := do
  let place := (← get).rendezvous.size
  modify fun execution => { execution with rendezvous := execution.rendezvous.push [] }
  pure place

/-- Open a rendezvous for a state, and give what it may be left with. -/
def openMerge (place meeting : Nat) : ExecutionM Registration := do
  onState place fun state => { state with openMerges := state.openMerges ++ [meeting] }
  addWaiting meeting place
  pure { meeting, place }

/-- Close a rendezvous that a state has opened; otherwise nothing happens. -/
def closeMerge (place meeting : Nat) : ExecutionM Unit := do
  if meeting ∈ ((← get).stateAt place).openMerges then
    onState place fun state => { state with openMerges := state.openMerges.erase meeting }
    removeWaiting meeting place

/-- Leave the rendezvous of a registration, if it is still open. -/
def release (registration : Registration) : ExecutionM Unit :=
  closeMerge registration.place registration.meeting

/-- Leave the function entered last. -/
def popFrame (place : Nat) : ExecutionM Unit := do
  let state := (← get).stateAt place
  match state.stack.getLast? with
  | none => throw .emptyStack
  | some frame =>
      onState place ({ · with stack := state.stack.dropLast })
      onHeap (frame.allocas.forM (Heap.unbind state.space))

/-- End a state: it waits nowhere, has no frame, and keeps only what no frame bound. -/
def terminate (place : Nat) : ExecutionM Unit := do
  let state := (← get).stateAt place
  state.openMerges.forM fun meeting => removeWaiting meeting place
  onState place ({ · with openMerges := [] })
  state.stack.forM fun _ => popFrame place
  tell ("terminated state " ++ toString (place + 1))

/-- Note an object that was made symbolic. -/
def addSymbolic (place : Nat) (object : MemoryObject) (array : ArrayDecl) : ExecutionM Unit :=
  onState place fun state =>
    { state with
      symbolics := state.symbolics ++ [(object, array)]
      arrayNames := state.arrayNames.insert array.name }

/-- Add a constraint to the path of a state. -/
def addConstraint (place : Nat) (constraint : Expr) : ExecutionM Unit :=
  onConstraints place (ConstraintSet.add constraint)

/-- Prefer a condition in counterexamples. -/
def addPreference (place : Nat) (condition : Expr) : ExecutionM Unit :=
  onState place fun state =>
    if state.preferences.any (·.same condition) then state
    else { state with preferences := state.preferences ++ [condition] }

/-- Change a frame, counted from the oldest, or from the newest below zero. -/
def onFrame (place : Nat) (index : Int) (change : Frame → Except Fault Frame) :
    ExecutionM Unit := do
  let state := (← get).stateAt place
  let frame ← ofExcept (Sequence.fetch state.stack index .listIndex)
  let changed ← ofExcept (change frame)
  onState place fun state =>
    { state with stack := (Sequence.set? state.stack index changed).getD state.stack }

/-- Define or undefine a register. -/
def setLocal (place : Nat) (index register : Int) (value : Option Expr) : ExecutionM Unit :=
  onFrame place index fun frame => do
    pure { frame with locals := ← Sequence.replace frame.locals register value }

/-- The value of a register. -/
def getLocal (execution : Execution) (place : Nat) (index register : Int) :
    Except Fault (Option Expr) := do
  let frame ← Sequence.fetch (execution.stateAt place).stack index .listIndex
  Sequence.fetch frame.locals register .listIndex

/-- Give an object to a frame. -/
def addAlloca (place : Nat) (index : Int) (object : MemoryObject) : ExecutionM Unit :=
  onFrame place index fun frame => .ok { frame with allocas := frame.allocas ++ [object] }

/-- Note an access of a frame to an object of another one. -/
def noteNonLocal (place : Nat) (index : Int) (written : Bool) (object : MemoryObject)
    (offset value : Expr) : ExecutionM Unit :=
  onFrame place index fun frame =>
    .ok (if written then
      { frame with nonLocalsWritten := frame.nonLocalsWritten.put object (offset, value) }
    else { frame with nonLocalsRead := frame.nonLocalsRead.put object (offset, value) })

/-- Put a copy of a frame on top of the stack. -/
def repeatFrame (place : Nat) (index : Int) : ExecutionM Unit := do
  let state := (← get).stateAt place
  let frame ← ofExcept (Sequence.fetch state.stack index .listIndex)
  onState place ({ · with stack := state.stack ++ [frame] })

/-- Note that a line was covered. -/
def cover (place : Nat) (file : String) (line : Int) : ExecutionM Unit :=
  onState place fun state =>
    { state with
      covered := state.covered.put file (((state.covered.get? file).getD []).insert line)
      coveredNew := true }

end Execution

end Diverge
