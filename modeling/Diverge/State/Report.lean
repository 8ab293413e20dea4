import Diverge.State.Basic

/-!
# Stack reports

A stack report names the frames of a state, the newest first, each with its position, the line of
assembly, the arguments and the place in the sources.  An argument is shown if it is constant.
If the options ask for it, the memory of the frames follows, gathered by function name: the
objects of the frame itself, then the objects of others that it read or wrote.  Frames that run
inside the system library are left out of that part.
-/

namespace Diverge

/-- The text of a report and, if it breaks off, why. -/
structure Report where
  text : String
  fault : Option Fault

namespace Report

/-- A number filled up with zeros to a number of characters, its sign among them. -/
def padded (characters : Nat) (number : Int) : Except Fault String := do
  let digits ← renderInteger number.natAbs
  let sign := if number < 0 then "-" else ""
  let filling := characters - digits.length - sign.length
  pure (sign ++ String.ofList (List.replicate filling '0') ++ digits)

/-- One argument of a frame. -/
def argument (frame : Frame) (position : Nat) (name : Option String) : Except Fault String := do
  let register ← (frame.function.argRegisters[position]?).elim (.error .listIndex) .ok
  let value ← Sequence.fetch frame.locals register .listIndex
  let shown ← match value with
    | some value => if value.isConstant then value.render else pure "symbolic"
    | none => pure "symbolic"
  match name with
  | some name => pure (if name = "" then shown else name ++ "=" ++ shown)
  | none => pure shown

/-- The arguments of a frame. -/
def arguments (frame : Frame) : Except Fault (List String) :=
  frame.function.argNames.zipIdx.mapM fun (name, position) => argument frame position name

/-- The line of a frame, `target` being the instruction at which it stands. -/
def frameLine (position : Nat) (target : Option Instruction) (frame : Frame) :
    Except Fault String := do
  let shown ← arguments frame
  let target ← target.elim (.error (.absent "file")) .ok
  let location ←
    if target.file = "" then pure ""
    else do pure (" at " ++ target.file ++ ":" ++ (← renderInteger target.line))
  let assembly ← padded 8 target.assemblyLine
  pure ("\t#" ++ toString position ++ assembly ++ " in " ++ frame.function.name ++ "(" ++
    ", ".intercalate shown ++ ")" ++ location ++ "\n")

/-- The lines of frames, the newest first; each frame was entered where the next one stands. -/
def backtrace (position : Nat) (target : Option Instruction) :
    List Frame → EStateM Fault String Unit
  | [] => pure ()
  | frame :: rest => do
      let line ← ofExcept (frameLine position target frame)
      modify (· ++ line)
      backtrace (position + 1) frame.caller rest

/-- The bytes of an object. -/
def contentsLines (contents : Contents) : Except Fault String := do
  let lines ← contents.bytes.zipIdx.mapM fun (byte, offset) => do
    pure ("\t\t\t" ++ toString offset ++ " -> " ++ (← byte.render) ++ "\n")
  pure ("\tSize: " ++ toString contents.size ++ "\n" ++ String.join lines)

/-- The memory of a frame. -/
def frameContents (heap : Heap) (space : Nat) (frame : Frame) (onStack : Bool) :
    Except Fault String := do
  let title := frame.function.name ++ (if onStack then " (stack): " else " (exited): ")
  let own ← frame.allocas.mapM fun object =>
    match heap.find? space object with
    | none => pure ""
    | some contents => do
        pure (title ++ object.name ++ " (local):\n" ++
          (← contentsLines (heap.contentsAt contents)))
  let read ← frame.nonLocalsRead.mapM fun (object, offset, _) =>
    match heap.find? space object with
    | none => pure ""
    | some contents => do
        let place ← offset.render
        pure (title ++ object.name ++ "[" ++ place ++ "] (non-local, read):\n" ++
          (← contentsLines (heap.contentsAt contents)))
  let written ← frame.nonLocalsWritten.mapM fun (object, offset, _) =>
    match heap.find? space object with
    | none => pure ""
    | some _ => do
        pure (title ++ object.name ++ "[" ++ (← offset.render) ++
          "]: (non-local, written)\n\n")
  pure (frame.function.name ++ ":\n" ++ String.join (own ++ read ++ written))

/-- Whether a text occurs in another. -/
def occursIn (part : List Char) : List Char → Bool
  | [] => part.isEmpty
  | char :: rest => part.isPrefixOf (char :: rest) || occursIn part rest

/-- Whether an instruction belongs to the system library. -/
def inLibrary (target : Option Instruction) : Bool :=
  target.any fun target => occursIn "libc".toList target.file.toList

/-- The memory of a frame that stands at `target`. -/
def frameInfo (heap : Heap) (space : Nat) (frame : Frame) (target : Option Instruction)
    (onStack : Bool) : Except Fault String :=
  if inLibrary target then pure "" else frameContents heap space frame onStack

/-- Gather the memory of frames, the newest first, by function name. -/
def gather (heap : Heap) (space : Nat) (target : Option Instruction) :
    List Frame → EStateM Fault (Assoc String String) Unit
  | [] => pure ()
  | frame :: rest => do
      let text ← ofExcept (frameInfo heap space frame target true)
      modify (·.put frame.function.name text)
      gather heap space frame.caller rest

/-- The text of what was gathered. -/
def renderInfo (info : Assoc String String) : String :=
  String.join (info.map fun (function, text) => function ++ ":\n" ++ text)

end Report

namespace Execution

/-- Report on the stack of a state; what is gathered stays with the state. -/
def reportStack (place : Nat) : StateM Execution Report := do
  let execution ← get
  let state := execution.stateAt place
  let frames := state.stack.reverse
  match Report.backtrace 0 state.prevPc frames "" with
  | .error fault lines => pure { text := lines, fault := some fault }
  | .ok _ lines =>
      if state.options.reportLocals then
        let keep (info : Assoc String String) : StateM Execution Unit :=
          set { execution with states := execution.states.setIfInBounds place { state with info } }
        let heading := lines ++ "Stack Content:\n"
        match Report.gather execution.heap state.space state.prevPc frames state.info with
        | .error fault info =>
            keep info
            pure { text := heading, fault := some fault }
        | .ok _ info =>
            keep info
            pure { text := heading ++ Report.renderInfo info, fault := none }
      else pure { text := lines, fault := none }

/-- Keep something known of a function with a state. -/
def addInfo (place : Nat) (function text : String) : ExecutionM Unit :=
  onState place fun state => { state with info := state.info.put function text }

/-- Keep the memory of the newest frame, which is being left at `target`. -/
def addReturnInfo (place : Nat) (target : Option Instruction) : ExecutionM Unit := do
  let execution ← get
  let state := execution.stateAt place
  match state.stack.getLast? with
  | none => throw .listIndex
  | some frame =>
      let text ← ofExcept (Report.frameInfo execution.heap state.space frame target false)
      match target with
      | none => throw (.absent "function")
      | some target =>
          addInfo place (if target.function = "" then frame.function.name else target.function) text

end Execution

end Diverge
