/-!
# Kinds of expression nodes

Every expression node has a kind: a constant, one of the structural kinds, or a binary operator.
Each kind has a name, by which it is picked from outside, and a label, under which it is written
in the text of an expression.
-/

namespace Diverge

/-- The operators that take two operands. -/
inductive BinaryOp where
  | add | sub | mul | udiv | sdiv | urem | srem
  | and | or | xor | shl | lshr | ashr
  | eq | ne | ult | ule | ugt | uge | slt | sle | sgt | sge
  deriving DecidableEq, Repr

namespace BinaryOp

/-- Every operator, in the order of the declaration. -/
def all : List BinaryOp :=
  [.add, .sub, .mul, .udiv, .sdiv, .urem, .srem,
    .and, .or, .xor, .shl, .lshr, .ashr,
    .eq, .ne, .ult, .ule, .ugt, .uge, .slt, .sle, .sgt, .sge]

/-- A comparison gives one bit, whatever the width of its operands. -/
def isComparison : BinaryOp → Bool
  | .eq | .ne | .ult | .ule | .ugt | .uge | .slt | .sle | .sgt | .sge => true
  | _ => false

/-- The name by which an operator is picked. -/
def name : BinaryOp → String
  | .add => "ADD"
  | .sub => "SUB"
  | .mul => "MUL"
  | .udiv => "UDIV"
  | .sdiv => "SDIV"
  | .urem => "UREM"
  | .srem => "SREM"
  | .and => "AND"
  | .or => "OR"
  | .xor => "XOR"
  | .shl => "SHL"
  | .lshr => "LSHR"
  | .ashr => "ASHR"
  | .eq => "EQ"
  | .ne => "NE"
  | .ult => "ULT"
  | .ule => "ULE"
  | .ugt => "UGT"
  | .uge => "UGE"
  | .slt => "SLT"
  | .sle => "SLE"
  | .sgt => "SGT"
  | .sge => "SGE"

/-- The label under which an operator is written. -/
def label : BinaryOp → String
  | .add => "Add"
  | .sub => "Sub"
  | .mul => "Mul"
  | .udiv => "UDiv"
  | .sdiv => "SDiv"
  | .urem => "URem"
  | .srem => "SRem"
  | .and => "And"
  | .or => "Or"
  | .xor => "Xor"
  | .shl => "Shl"
  | .lshr => "LShr"
  | .ashr => "AShr"
  | .eq => "Eq"
  | .ne => "Ne"
  | .ult => "Ult"
  | .ule => "Ule"
  | .ugt => "Ugt"
  | .uge => "Uge"
  | .slt => "Slt"
  | .sle => "Sle"
  | .sgt => "Sgt"
  | .sge => "Sge"

end BinaryOp

/-- What sort of node an expression is. -/
inductive Kind where
  | constant
  | notOptimized
  | read
  | select
  | concat
  | extract
  | zext
  | sext
  | not
  | binary (operator : BinaryOp)
  deriving DecidableEq, Repr

namespace Kind

/-- Every kind. -/
def all : List Kind :=
  [.constant, .notOptimized, .read, .select, .concat, .extract, .zext, .sext, .not] ++
    BinaryOp.all.map .binary

/-- The name by which a kind is picked. -/
def name : Kind → String
  | .constant => "CONSTANT"
  | .notOptimized => "NOT_OPTIMIZED"
  | .read => "READ"
  | .select => "SELECT"
  | .concat => "CONCAT"
  | .extract => "EXTRACT"
  | .zext => "ZEXT"
  | .sext => "SEXT"
  | .not => "NOT"
  | .binary operator => operator.name

/-- The kind of a given name. -/
def ofName? (text : String) : Option Kind :=
  all.find? (·.name == text)

/-- The label under which a kind is written. -/
def label : Kind → String
  | .constant => "Constant"
  | .notOptimized => "NotOptimized"
  | .read => "Read"
  | .select => "Select"
  | .concat => "Concat"
  | .extract => "Extract"
  | .zext => "ZExt"
  | .sext => "SExt"
  | .not => "Not"
  | .binary operator => operator.label

end Kind

end Diverge
