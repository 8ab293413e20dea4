import Diverge.Sequence
import Diverge.Word
import Diverge.Expr.Table

/-!
# Building expressions

One function for each kind of node.  Where the operands decide the result, the function gives a
simpler expression: constants are computed, an extension or extraction to the same width is
dropped, a choice with a known guard or with equal branches is one of its branches.  With `multi`
set the node is built as it stands; only a concatenation of constants is computed all the same.
A node is multi if that is asked for or if one of its operands is.
-/

namespace Diverge

namespace Build

/-- The constant of a word of a given width. -/
def constNode (word width : Int) : Build Expr := do
  pure (.const (← tag (.const word) width false) word)

/-- A constant, cut to its width. -/
def constant (value width : Int) : Build Expr := do
  constNode (← ofExcept (Word.truncate value width)) width

/-- The one-bit constant of a truth value. -/
def ofBool (truth : Bool) : Build Expr :=
  constant (Word.ofBool truth) 1

/-- A 64-bit address. -/
def pointer (value : Int) : Build Expr :=
  constant value 64

/-- A value that must not be simplified away. -/
def notOptimized (source : Expr) (multi : Bool := false) : Build Expr := do
  let multi := multi || source.multi
  pure (.notOptimized (← tag (.notOptimized source.id) source.width multi) source)

/-- What a read at a known index gives, when the history decides it. -/
inductive Known where
  | written (value : Expr)
  | stored (value width : Int)
  | unknown

/--
Look a known index up in a history.  A write at an index that is not known hides all that is
older; an array with known contents answers where its contents reach.
-/
def known (position : Option Int) : Updates → Except Fault Known
  | .root array =>
      match array.contents, position with
      | none, _ => pure .unknown
      | some _, none => throw .absentIndex
      | some values, some position =>
          if position < values.length then do
            pure (.stored (← Sequence.fetch values position .tupleIndex) array.range)
          else pure .unknown
  | .write _ index value older =>
      match index.constant? with
      | none => pure .unknown
      | some written => if written = position then pure (.written value) else known position older

/-- A read that is not simplified. -/
def readNode (updates : Updates) (index : Expr) (multi : Bool) : Build Expr := do
  let multi := multi || index.multi
  let array := updates.array
  let shape := Shape.read array.id updates.newest? index.id
  pure (.read (← tag shape array.range multi) updates index)

/-- The value of a history at an index. -/
def read (updates : Updates) (index : Expr) (multi : Bool := false) : Build Expr := do
  match index.constant?, multi with
  | some position, false =>
      match ← ofExcept (known position updates) with
      | .written value => pure value
      | .stored value width => constant value width
      | .unknown => readNode updates index multi
  | _, _ => readNode updates index multi

/-- A choice that is not simplified. -/
def selectNode (patches : Option (Int × Int)) (cond onTrue onFalse : Expr) (multi : Bool) :
    Build Expr := do
  let multi := multi || cond.multi || onTrue.multi || onFalse.multi
  let shape := Shape.select patches cond.id onTrue.id onFalse.id
  pure (.select (← tag shape onTrue.width multi) patches cond onTrue onFalse)

/-- A choice between two values. -/
def select (cond onTrue onFalse : Expr) (multi : Bool := false) : Build Expr :=
  if multi then selectNode none cond onTrue onFalse multi
  else
    match cond.constant? with
    | some guard => pure (if Word.isTrue guard then onTrue else onFalse)
    | none =>
        if onTrue.same onFalse then pure onTrue
        else selectNode none cond onTrue onFalse multi

/-- A choice between the values of two revisions, of which both numbers must be known. -/
def patchSelect (cond onTrue onFalse : Expr) (truePatch falsePatch : Option Int) : Build Expr :=
  match truePatch, falsePatch with
  | some truePatch, some falsePatch =>
      selectNode (some (truePatch, falsePatch)) cond onTrue onFalse true
  | _, _ => throw .revisionMissing

/-- A concatenation that is not simplified. -/
def concatNode (high low : Expr) (multi : Bool) : Build Expr := do
  let multi := multi || high.multi || low.multi
  let shape := Shape.concat high.id low.id
  pure (.concat (← tag shape (high.width + low.width) multi) high low)

/-- Two values side by side. -/
def concat (high low : Expr) (multi : Bool := false) : Build Expr := do
  match high.constant?, low.constant? with
  | some upper, some lower => do
      constant (← ofExcept (Word.join upper lower low.width)) (high.width + low.width)
  | _, _ => concatNode high low multi

/-- Several values side by side, the most significant first. -/
def concatAll : List Expr → Build Expr
  | [] => throw .emptyConcat
  | first :: rest => rest.foldlM (fun high low => concat high low) first

/-- An extraction that is not simplified. -/
def extractNode (source : Expr) (offset width : Int) (multi : Bool) : Build Expr := do
  let multi := multi || source.multi
  pure (.extract (← tag (.extract (some offset) source.id) width multi) offset source)

/-- The `width` bits of a value from bit `offset` on. -/
def extract (source : Expr) (offset width : Int) (multi : Bool := false) : Build Expr := do
  if multi then extractNode source offset width multi
  else if offset = 0 ∧ width = source.width then pure source
  else
    match source.constant? with
    | some value => do
        constant (← ofExcept (Word.shiftRight? value (some offset))) width
    | none => extractNode source offset width multi

/-- A zero extension that is not simplified. -/
def zextNode (source : Expr) (width : Int) (multi : Bool) : Build Expr := do
  let multi := multi || source.multi
  pure (.zext (← tag (.zext source.id) width multi) source)

/-- Zero extension; to a smaller width, the low bits. -/
def zext (source : Expr) (width : Int) (multi : Bool := false) : Build Expr :=
  if multi then zextNode source width multi
  else if width = source.width then pure source
  else if width < source.width then extract source 0 width
  else
    match source.constant? with
    | some value => do constNode (← ofExcept (Word.truncate? value width)) width
    | none => zextNode source width multi

/-- A sign extension that is not simplified. -/
def sextNode (source : Expr) (width : Int) (multi : Bool) : Build Expr := do
  let multi := multi || source.multi
  pure (.sext (← tag (.sext source.id) width multi) source)

/-- Sign extension; to a smaller width, the low bits. -/
def sext (source : Expr) (width : Int) (multi : Bool := false) : Build Expr :=
  if multi then sextNode source width multi
  else if width = source.width then pure source
  else if width < source.width then extract source 0 width
  else
    match source.constant? with
    | some value => do constant (← ofExcept (Word.signed? value source.width)) width
    | none => sextNode source width multi

/-- A complement that is not simplified. -/
def notNode (source : Expr) (multi : Bool) : Build Expr := do
  let multi := multi || source.multi
  pure (.not (← tag (.not source.id) source.width multi) source)

/-- Bitwise complement; the complement of a complement is what it was made of. -/
def not (source : Expr) (multi : Bool := false) : Build Expr :=
  if multi then notNode source multi
  else
    match source.constant?, source.kind? with
    | some value, _ => do constant (← ofExcept (Word.bitNot? value)) source.width
    | none, some .not => (source.kids.head?).elim (throw .tupleIndex) pure
    | none, _ => notNode source multi

/-- The width of the result of an operator. -/
def resultWidth (operator : BinaryOp) (left : Expr) : Int :=
  if operator.isComparison then 1 else left.width

/-- A binary node that is not simplified. -/
def binaryNode (operator : BinaryOp) (left right : Expr) (multi : Bool) : Build Expr := do
  let multi := multi || left.multi || right.multi
  let shape := Shape.binary operator left.id right.id
  pure (.binary (← tag shape (resultWidth operator left) multi) operator left right)

/-- Whether a constant decides a conjunction, or a disjunction, by itself. -/
def absorbs (operator : BinaryOp) (expression : Expr) : Bool :=
  if operator = .and then expression.isFalse else expression.isTrue

/-- A one-bit conjunction or disjunction that one operand decides. -/
def simplifyLogic (operator : BinaryOp) (left right : Expr) : Option Expr :=
  if left.isConstant then some (if absorbs operator left then left else right)
  else if right.isConstant then some (if absorbs operator right then right else left)
  else if left.same right then some left
  else none

/-- A binary node of which not both operands are constants, or whose value does not exist. -/
def binaryOpen (operator : BinaryOp) (left right : Expr) : Build Expr :=
  if (operator = .and ∨ operator = .or) ∧ left.width = 1 then
    match simplifyLogic operator left right with
    | some simpler => pure simpler
    | none => binaryNode operator left right false
  else binaryNode operator left right false

/-- A binary operator on two operands. -/
def binary (operator : BinaryOp) (left right : Expr) (multi : Bool := false) : Build Expr := do
  if multi then binaryNode operator left right multi
  else
    match left.constant?, right.constant? with
    | some first, some second =>
        match ← ofExcept (operator.applyPresent first second left.width) with
        | some result => constant result (resultWidth operator left)
        | none => binaryOpen operator left right
    | _, _ => binaryOpen operator left right

/-- A binary node of a given kind, which must be that of an operator. -/
def binaryOfKind (kind : Kind) (left right : Expr) (multi : Bool := false) : Build Expr :=
  match kind with
  | .binary operator => binary operator left right multi
  | _ => throw (.notBinary (some kind))

/-- The conjunction of several one-bit values, starting from true. -/
def conjunction (expressions : List Expr) : Build Expr := do
  expressions.foldlM (fun left right => binary .and left right) (← ofBool true)

end Build

end Diverge
