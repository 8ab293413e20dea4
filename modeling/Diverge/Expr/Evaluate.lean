import Diverge.Sequence
import Diverge.Word
import Diverge.Expr.Render

/-!
# The value of an expression

An assignment gives bytes to the symbolic arrays.  `Expr.evaluate` computes the integer that an
expression stands for under an assignment.  A read takes the newest write at its index, else the
content of the array, else zero; an index below zero counts from the end of the content.  Of a
choice only the branch taken is evaluated.  A constant put together by hand may lack its value;
what is made of it lacks a value too, or is a fault.

Expressions share their parts, and a shared part need be evaluated only once.  The computation is
therefore written for any monad in which the value of a node may be recalled by its identity;
`Expr.evaluate` recalls nothing, and its value of each node is told by one lemma per constructor.
-/

namespace Diverge

/-- The bytes of every array, by the identity of the array. -/
abbrev Assignment := Nat → List UInt8

/-- The assignment that gives some arrays their bytes, and none to all others. -/
def Assignment.ofList (entries : List (ArrayDecl × List UInt8)) : Assignment := fun identity =>
  ((entries.find? (·.1.id == identity)).map (·.2)).getD []

/-- The element of `values` at `index`, zero past the end, and a fault before the start. -/
def valueAt (values : List Int) (index : Option Int) (fault : Fault) : Except Fault Int :=
  match index with
  | none => .error .absentIndex
  | some index => if index < values.length then Sequence.fetch values index fault else .ok 0

/-- The content of an array at an index that no write covers. -/
def ArrayDecl.valueAt (array : ArrayDecl) (assignment : Assignment) (index : Option Int) :
    Except Fault Int :=
  match array.contents with
  | some values => Diverge.valueAt values index .tupleIndex
  | none =>
      Diverge.valueAt ((assignment array.id).map fun byte => (byte.toNat : Int)) index
        .assignedIndex

/-- The value of a node put together by hand, from the values of its operands. -/
def looseValue (node : Expr) (operands : List (Option Int)) : Except Fault (Option Int) := do
  let operand (position : Nat) : Except Fault (Option Int) :=
    (operands[position]?).elim (.error .listIndex) .ok
  let widthOf (position : Nat) : Except Fault Int :=
    (node.kids[position]?).elim (.error .tupleIndex) fun kid => .ok kid.width
  match node.kind? with
  | some .constant => pure node.value?
  | some .notOptimized | some .zext => operand 0
  | some .read => do
      let _ ← operand 0
      throw .absentUpdates
  | some .select => throw (.selectArity operands.length)
  | some .concat => do
      let high ← operand 0
      let width ← widthOf 1
      pure (some (← Word.join high (← operand 1) width))
  | some .extract => do
      let shifted ← Word.shiftRight? (← operand 0) node.offset?
      pure (some (← Word.truncate shifted node.width))
  | some .sext => do
      let source ← operand 0
      pure (some (← Word.truncate (← Word.signed? source (← widthOf 0)) node.width))
  | some .not => do
      pure (some (← Word.truncate (← Word.bitNot? (← operand 0)) node.width))
  | some (.binary operator) => do
      let left ← operand 0
      let right ← operand 1
      match ← operator.applyPresent left right (← widthOf 0) with
      | some result => pure (some (← Word.truncate result node.width))
      | none => throw (.divisionByZero (← node.render))
  | none => do
      let left ← operand 0
      let right ← operand 1
      let width ← widthOf 0
      let _ ← Word.signed? left width
      let _ ← Word.signed? right width
      throw (.notBinary none)

section

variable {m : Type → Type} [Monad m] [MonadExceptOf Fault m]

/-- The value of a select put together by hand, or of another such node. -/
def evaluateLoose (node : Expr) (operands : List (m (Option Int))) : m (Option Int) :=
  if node.kind? = some .select then
    match operands with
    | [cond, onTrue, onFalse] => do if Word.isTrue (← cond) then onTrue else onFalse
    | _ => throw (.selectArity operands.length)
  else do
    let values ← operands.mapM fun operand => operand
    ofExcept (looseValue node values)

mutual

/--
The value of an expression under an assignment.  The value of the node of an identity is had by
`remember`, to which the way to compute it is given.
-/
def Expr.evaluateBy (remember : Nat → m (Option Int) → m (Option Int)) (assignment : Assignment) :
    Expr → m (Option Int)
  | .const _ value => pure (some value)
  | .notOptimized tag source => remember tag.id (source.evaluateBy remember assignment)
  | .read tag updates index => remember tag.id do
      let position ← index.evaluateBy remember assignment
      updates.lookupBy remember assignment position
  | .select tag _ cond onTrue onFalse => remember tag.id do
      if Word.isTrue (← cond.evaluateBy remember assignment) then
        onTrue.evaluateBy remember assignment
      else onFalse.evaluateBy remember assignment
  | .concat tag high low => remember tag.id do
      let upper ← high.evaluateBy remember assignment
      let lower ← low.evaluateBy remember assignment
      return some (← ofExcept (Word.join upper lower low.width))
  | .extract tag offset source => remember tag.id do
      let value ← source.evaluateBy remember assignment
      let shifted ← ofExcept (Word.shiftRight? value (some offset))
      return some (← ofExcept (Word.truncate shifted tag.width))
  | .zext tag source => remember tag.id (source.evaluateBy remember assignment)
  | .sext tag source => remember tag.id do
      let value ← source.evaluateBy remember assignment
      let extended ← ofExcept (Word.signed? value source.width)
      return some (← ofExcept (Word.truncate extended tag.width))
  | .not tag source => remember tag.id do
      let value ← source.evaluateBy remember assignment
      let complement ← ofExcept (Word.bitNot? value)
      return some (← ofExcept (Word.truncate complement tag.width))
  | .binary tag operator left right => remember tag.id do
      let first ← left.evaluateBy remember assignment
      let second ← right.evaluateBy remember assignment
      match ← ofExcept (operator.applyPresent first second left.width) with
      | some result => return some (← ofExcept (Word.truncate result tag.width))
      | none =>
          let text ← ofExcept (Expr.binary tag operator left right).render
          throw (.divisionByZero text)
  | .loose tag kind value kids => remember tag.id
      (evaluateLoose (.loose tag kind value kids) (evaluateEachBy remember assignment kids))

/-- The value of a history at an index. -/
def Updates.lookupBy (remember : Nat → m (Option Int) → m (Option Int)) (assignment : Assignment)
    (position : Option Int) : Updates → m (Option Int)
  | .root array => return some (← ofExcept (array.valueAt assignment position))
  | .write _ index value older => do
      let written ← index.evaluateBy remember assignment
      if written = position then value.evaluateBy remember assignment
      else older.lookupBy remember assignment position

/-- The values of several expressions. -/
def evaluateEachBy (remember : Nat → m (Option Int) → m (Option Int)) (assignment : Assignment) :
    List Expr → List (m (Option Int))
  | [] => []
  | expression :: rest =>
      expression.evaluateBy remember assignment :: evaluateEachBy remember assignment rest

end

end

/-- The value of an expression under an assignment. -/
def Expr.evaluate (assignment : Assignment) (expression : Expr) : Except Fault (Option Int) :=
  expression.evaluateBy (fun _ compute => compute) assignment

/-- The value of a history at an index. -/
def Updates.lookup (assignment : Assignment) (position : Option Int) (updates : Updates) :
    Except Fault (Option Int) :=
  updates.lookupBy (fun _ compute => compute) assignment position

/-! ## The value of each node -/

section

variable (assignment : Assignment)

@[simp]
theorem ofExcept_self {α : Type} (result : Except Fault α) :
    (ofExcept result : Except Fault α) = result := by
  cases result <;> rfl

@[simp]
theorem Expr.evaluate_const (tag : Tag) (value : Int) :
    (Expr.const tag value).evaluate assignment = .ok (some value) := rfl

@[simp]
theorem Expr.evaluate_notOptimized (tag : Tag) (source : Expr) :
    (Expr.notOptimized tag source).evaluate assignment = source.evaluate assignment := rfl

@[simp]
theorem Expr.evaluate_read (tag : Tag) (updates : Updates) (index : Expr) :
    (Expr.read tag updates index).evaluate assignment =
      index.evaluate assignment >>= fun position => updates.lookup assignment position := rfl

@[simp]
theorem Expr.evaluate_select (tag : Tag) (patches : Option (Int × Int))
    (cond onTrue onFalse : Expr) :
    (Expr.select tag patches cond onTrue onFalse).evaluate assignment =
      cond.evaluate assignment >>= fun guard =>
        if Word.isTrue guard then onTrue.evaluate assignment
        else onFalse.evaluate assignment := rfl

@[simp]
theorem Expr.evaluate_concat (tag : Tag) (high low : Expr) :
    (Expr.concat tag high low).evaluate assignment = (do
      let upper ← high.evaluate assignment
      let lower ← low.evaluate assignment
      return some (← Word.join upper lower low.width)) := by
  simp [Expr.evaluate, Expr.evaluateBy]

@[simp]
theorem Expr.evaluate_extract (tag : Tag) (offset : Int) (source : Expr) :
    (Expr.extract tag offset source).evaluate assignment = (do
      let value ← source.evaluate assignment
      let shifted ← Word.shiftRight? value (some offset)
      return some (← Word.truncate shifted tag.width)) := by
  simp [Expr.evaluate, Expr.evaluateBy]

@[simp]
theorem Expr.evaluate_zext (tag : Tag) (source : Expr) :
    (Expr.zext tag source).evaluate assignment = source.evaluate assignment := rfl

@[simp]
theorem Expr.evaluate_sext (tag : Tag) (source : Expr) :
    (Expr.sext tag source).evaluate assignment = (do
      let value ← source.evaluate assignment
      let extended ← Word.signed? value source.width
      return some (← Word.truncate extended tag.width)) := by
  simp [Expr.evaluate, Expr.evaluateBy]

@[simp]
theorem Expr.evaluate_not (tag : Tag) (source : Expr) :
    (Expr.not tag source).evaluate assignment = (do
      let value ← source.evaluate assignment
      let complement ← Word.bitNot? value
      return some (← Word.truncate complement tag.width)) := by
  simp [Expr.evaluate, Expr.evaluateBy]

@[simp]
theorem Expr.evaluate_binary (tag : Tag) (operator : BinaryOp) (left right : Expr) :
    (Expr.binary tag operator left right).evaluate assignment = (do
      let first ← left.evaluate assignment
      let second ← right.evaluate assignment
      match ← operator.applyPresent first second left.width with
      | some result => return some (← Word.truncate result tag.width)
      | none =>
          let text ← (Expr.binary tag operator left right).render
          throw (.divisionByZero text)) := by
  simp only [Expr.evaluate, Expr.evaluateBy, ofExcept_self]

@[simp]
theorem Updates.lookup_root (position : Option Int) (array : ArrayDecl) :
    (Updates.root array).lookup assignment position = (do
      return some (← array.valueAt assignment position)) := by
  simp [Updates.lookup, Updates.lookupBy]

@[simp]
theorem Updates.lookup_write (position : Option Int) (id : Nat) (index value : Expr)
    (older : Updates) :
    (Updates.write id index value older).lookup assignment position =
      index.evaluate assignment >>= fun written =>
        if written = position then value.evaluate assignment
        else older.lookup assignment position := rfl

end

end Diverge
