import Diverge.ByteCount
import Diverge.Kind
import Diverge.Text.Integer

/-!
# Faults

Everything that can go wrong while expressions are built, evaluated or merged, one constructor
for each cause.  The wording of a fault is given by `Fault.message` and nowhere else.  A fault
whose wording shows an integer holds the text of the integer.  An integer with too many digits
has none, and then that is the fault (`Fault.telling`).

## What is left out

- Call depth.  Evaluating, splitting and writing follow an expression down to its leaves, however
  deep it is, and no depth is refused.
- Memory that is taken up.  How much there is is assumed (`ByteCount.memory`), and each request is
  held against all of it: what was made before leaves no less.
- Lone surrogates.  A `String` holds whole characters only, so the names and arguments of records
  have no half of a surrogate pair; one that is read is replaced (`CodePoints.charOf`).
-/

namespace Diverge

/-- The cause of a failed operation on expressions, memory or states. -/
inductive Fault where
  /-- A shift by a negative amount, or a width below zero. -/
  | negativeShift
  /-- A division or remainder by zero; the text is that of the dividing node. -/
  | divisionByZero (node : String)
  /-- A binary node was asked for with a kind that takes no two operands. -/
  | notBinary (kind : Option Kind)
  /-- A revision select needs both of its revision numbers. -/
  | revisionMissing
  /-- A node whose kind says nothing about how to split it. -/
  | unsplittable (kind : Option Kind)
  /-- A node without a kind has no text. -/
  | unnamedKind
  /-- The concatenation of no expressions. -/
  | emptyConcat
  /-- A fixed sequence of operands or array values was read outside its bounds. -/
  | tupleIndex
  /-- The bytes assigned to an array were read before their start. -/
  | assignedIndex
  /-- A list was read outside its bounds. -/
  | listIndex
  /-- A list was written outside its bounds. -/
  | listAssignment
  /-- An index does not fit into 64 bits. -/
  | indexSize
  /-- The last frame of an empty stack was asked for. -/
  | emptyStack
  /-- A number of operands other than three at a select. -/
  | selectArity (operands : Nat)
  /-- Something absent was asked for one of its fields. -/
  | absent (field : String)
  /-- An absent update history was walked. -/
  | absentUpdates
  /-- A constraint is not one bit wide; the text is that of the constraint. -/
  | notBoolean (constraint : String)
  /-- The constant false was added as a constraint. -/
  | falseConstraint
  /-- A byte was overwritten by a value of another width. -/
  | byteWidth (width : String)
  /-- Contents that belong to another address space were bound. -/
  | sharedObject (number : String)
  /-- A read-only object was written. -/
  | readOnlyObject (number : String)
  /-- More was asked for than there can be: bytes, elements of a list or digits of an integer. -/
  | count (fault : CountFault)
  /-- A constant that is no byte stands among concrete contents. -/
  | byteRange
  /-- A constant without a value stands among concrete contents. -/
  | absentByte
  /-- An operator met an absent operand; the flags tell which of its operands are there. -/
  | absentOperand (symbol : String) (left right : Bool)
  /-- An absent value has no complement. -/
  | absentComplement
  /-- An absent index is not compared with the size of an array. -/
  | absentIndex
  /-- Instructions are compared of which one is absent; the flags tell which are there. -/
  | unordered (left right : Bool)
  /-- An integer has too many digits to be written. -/
  | tooManyDigits
  /-- A node without operands has no pieces. -/
  | noPieces
  /-- A node cannot be rebuilt from so many operands. -/
  | operandCount (kind : Kind) (given : Nat)
  deriving DecidableEq, Repr

/-- The fault that shows an integer, if the integer can be written. -/
def Fault.telling (fault : String → Fault) (value : Int) : Fault :=
  (Integer.text? value).elim .tooManyDigits fault

/-- How a kind is written inside a message. -/
def Kind.describe? : Option Kind → String
  | some kind => "ExpressionKind." ++ kind.name
  | none => "None"

/-- How messages name what rebuilds a node of a kind. -/
def Kind.rebuilder : Kind → String
  | .notOptimized => "not_optimized()"
  | .select => "select()"
  | .concat => "concat()"
  | .not => "not_()"
  | _ => "split_expr.<locals>.<lambda>()"

/-- How messages name the operands that a node of a kind is rebuilt from. -/
def Kind.operandNames : Kind → List String
  | .select => ["cond", "true_expr", "false_expr"]
  | .concat => ["msb", "lsb"]
  | .binary _ => ["left", "right"]
  | _ => ["expr"]

/-- Whether one operand more than needed marks the rebuilt node as multi. -/
def Kind.takesMark : Kind → Bool
  | .notOptimized | .select | .concat | .not => true
  | _ => false

/-- How a number of operands is refused from which a node cannot be rebuilt. -/
def Kind.countMessage (kind : Kind) (given : Nat) : String :=
  let needed := kind.operandNames.length
  let plural (count : Nat) : String := if count = 1 then "" else "s"
  let missing := (kind.operandNames.drop given).map fun name => "'" ++ name ++ "'"
  kind.rebuilder ++
    if missing.isEmpty then
      " takes " ++
        (if kind.takesMark then
          "from " ++ toString needed ++ " to " ++ toString (needed + 1) ++ " positional arguments"
        else toString needed ++ " positional argument" ++ plural needed) ++
        " but " ++ toString given ++ " were given"
    else
      " missing " ++ toString missing.length ++ " required positional argument" ++
        plural missing.length ++ ": " ++ " and ".intercalate missing

/-- How messages name the type of an operand. -/
def operandType (present : Bool) : String :=
  if present then "int" else "NoneType"

/-- The text of a fault. -/
def Fault.message : Fault → String
  | .negativeShift => "negative shift count"
  | .divisionByZero node => node
  | .notBinary kind => Kind.describe? kind ++ " is not a binary expression kind"
  | .revisionMissing => "revision select built without both patch indices"
  | .unsplittable kind => "cannot split expression of kind " ++ Kind.describe? kind
  | .unnamedKind => "None"
  | .emptyConcat => "reduce() of empty iterable with no initial value"
  | .tupleIndex => "tuple index out of range"
  | .assignedIndex => "index out of range"
  | .listIndex => "list index out of range"
  | .listAssignment => "list assignment index out of range"
  | .emptyStack => "pop from empty list"
  | .selectArity operands =>
      if operands < 3 then s!"not enough values to unpack (expected 3, got {operands})"
      else "too many values to unpack (expected 3)"
  | .absent field => s!"'NoneType' object has no attribute '{field}'"
  | .absentUpdates => "'NoneType' object is not iterable"
  | .notBoolean constraint => s!"constraint {constraint} is not boolean"
  | .falseConstraint => "attempt to add invalid (false) constraint"
  | .byteWidth width => s!"byte write of {width}-bit value"
  | .sharedObject number => s!"MO{number} is shared with another address space"
  | .readOnlyObject number => s!"write to read-only object MO{number}"
  | .indexSize => CountFault.message .unindexable
  | .count fault => fault.message
  | .byteRange => "bytes must be in range(0, 256)"
  | .absentByte => "'NoneType' object cannot be interpreted as an integer"
  | .absentOperand symbol left right =>
      "unsupported operand type(s) for " ++ symbol ++ ": '" ++ operandType left ++ "' and '" ++
        operandType right ++ "'"
  | .absentComplement => "bad operand type for unary ~: 'NoneType'"
  | .absentIndex => "'<' not supported between instances of 'NoneType' and 'int'"
  | .unordered left right =>
      let type (present : Bool) : String := if present then "KInstruction" else "NoneType"
      "'<' not supported between instances of '" ++ type left ++ "' and '" ++ type right ++ "'"
  | .tooManyDigits => Integer.limitMessage none
  | .noPieces => "not enough values to unpack (expected at least 1, got 0)"
  | .operandCount kind given => kind.countMessage given

end Diverge
