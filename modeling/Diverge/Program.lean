import Diverge.Fault

/-!
# Programs under execution

A function has registers and instructions, and tells in which registers its arguments arrive.
Two instructions are equal, and are ordered, by their numbers alone.
-/

namespace Diverge

/-- An instruction and where it comes from. -/
structure Instruction where
  number : Int
  function : String := ""
  file : String := ""
  line : Int := 0
  assemblyLine : Int := 0
  deriving Repr, Inhabited

/-- A function of the program. -/
structure Function where
  /-- The identity of the function. -/
  key : Nat
  name : String
  registers : Int
  instructions : List Instruction
  argRegisters : List Int
  argNames : List (Option String)
  deriving Repr, Inhabited

namespace Instruction

/-- Two places that may be absent are the same instruction. -/
def same? (left right : Option Instruction) : Bool :=
  left.map number == right.map number

/-- The order of two instructions, neither of which may be absent. -/
def order : Option Instruction → Option Instruction → Except Fault Ordering
  | some left, some right => .ok (compare left.number right.number)
  | left, right => .error (.unordered left.isSome right.isSome)

end Instruction

namespace Function

/-- The function has the same identity. -/
def same (left right : Function) : Bool :=
  left.key == right.key

end Function

/-- What is wanted of a run. -/
structure Options where
  /-- Tell every step of a merge. -/
  traceMerges : Bool := false
  /-- Write the memory of the frames under a stack report. -/
  reportLocals : Bool := false
  deriving DecidableEq, Repr, Inhabited

end Diverge
