import Diverge.Fault
import Diverge.Expr.Basic

/-!
# The text of an expression

A constant is written `(w8 5)`, or `true` and `false` when it is one bit wide; any other node is
its label, its width and its operands in parentheses.  A read ends in its history: the name of
the array, preceded by the writes in brackets if there are any, newest first.

An integer with too many digits cannot be written, be it a value, an offset or a width.  Reads
and extractions write their width before their operands, all other nodes after them; the order
tells which of several faults is met first.
-/

namespace Diverge

/-- The text of an integer. -/
def renderInteger (value : Int) : Except Fault String :=
  (Integer.text? value).elim (.error .tooManyDigits) .ok

/-- The text of an integer that may be absent. -/
def renderValue? : Option Int → Except Fault String
  | some value => renderInteger value
  | none => .ok "None"

/-- The text of a constant of a given width. -/
def renderConstant (width : Int) (value : Option Int) : Except Fault String :=
  if width = 1 then .ok (if value.getD 0 = 0 then "false" else "true")
  else do
    let size ← renderInteger width
    let word ← renderValue? value
    pure ("(w" ++ size ++ " " ++ word ++ ")")

/-- A label, and a width and operands already written. -/
def nodeText (label width : String) (operands : List String) : String :=
  "(" ++ label ++ " w" ++ width ++ " " ++ " ".intercalate operands ++ ")"

/-- The text of a node whose operands are already written. -/
def renderNode (label : String) (width : Int) (operands : List String) : Except Fault String := do
  pure (nodeText label (← renderInteger width) operands)

/-- The text of a history, from the texts of its writes. -/
def renderHistory (array : ArrayDecl) (writes : List String) : String :=
  if writes.isEmpty then array.name
  else "[" ++ ", ".intercalate writes ++ "] @ " ++ array.name

/-- The text of a node put together by hand, from the texts of its operands. -/
def renderLoose (width : Int) (kind : Option Kind) (value : Option Int)
    (operands : List (Except Fault String)) : Except Fault String :=
  match kind with
  | some .constant => renderConstant width value
  | some .read => do
      let _ ← renderInteger width
      let _ ← operands.headD (.error .tupleIndex)
      throw (.absent "head")
  | some .extract => do
      let size ← renderInteger width
      let source ← operands.headD (.error .tupleIndex)
      pure (nodeText "Extract" size ["None", source])
  | some kind => do
      renderNode kind.label width (← operands.mapM fun operand => operand)
  | none => do
      let _ ← operands.mapM fun operand => operand
      throw .unnamedKind

mutual

/-- The text of an expression. -/
def Expr.render : Expr → Except Fault String
  | .const tag value => renderConstant tag.width (some value)
  | .notOptimized tag source => do renderNode "NotOptimized" tag.width [← source.render]
  | .read tag updates index => do
      let size ← renderInteger tag.width
      let position ← index.render
      let writes ← renderWrites updates
      pure (nodeText "Read" size [position, renderHistory updates.array writes])
  | .select tag _ cond onTrue onFalse => do
      let guard ← cond.render
      let first ← onTrue.render
      renderNode "Select" tag.width [guard, first, ← onFalse.render]
  | .concat tag high low => do
      let upper ← high.render
      renderNode "Concat" tag.width [upper, ← low.render]
  | .extract tag offset source => do
      let size ← renderInteger tag.width
      let place ← renderInteger offset
      pure (nodeText "Extract" size [place, ← source.render])
  | .zext tag source => do renderNode "ZExt" tag.width [← source.render]
  | .sext tag source => do renderNode "SExt" tag.width [← source.render]
  | .not tag source => do renderNode "Not" tag.width [← source.render]
  | .binary tag operator left right => do
      let first ← left.render
      renderNode operator.label tag.width [first, ← right.render]
  | .loose tag kind value kids => renderLoose tag.width kind value (renderEach kids)

/-- The texts of the writes of a history, newest first. -/
def renderWrites : Updates → Except Fault (List String)
  | .root _ => pure []
  | .write _ index value older => do
      let position ← index.render
      let content ← value.render
      pure ((position ++ "=" ++ content) :: (← renderWrites older))

/-- The texts of several expressions. -/
def renderEach : List Expr → List (Except Fault String)
  | [] => []
  | expression :: rest => expression.render :: renderEach rest

end

/-- The text of several expressions between brackets. -/
def renderList (expressions : List Expr) : Except Fault String := do
  pure ("[" ++ ", ".intercalate (← expressions.mapM Expr.render) ++ "]")

end Diverge
