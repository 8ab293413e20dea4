import Diverge.Revision
import Diverge.Expr.Build

/-!
# Splitting an expression by revision

A multi expression stands for one expression in each of several revisions.  `Expr.split` lists
them as pieces: a revision number and an expression that is no longer multi.  A revision select
contributes the pieces of both branches, each under the number of its branch; any other node is
rebuilt once for every combination of pieces of its operands, the last operand varying fastest.
-/

namespace Diverge

/-- A revision number and the expression it stands for there. -/
abbrev Piece := Int × Expr

namespace Piece

/-- Number a piece of a branch of a revision select. -/
def under (revision : Int) (piece : Piece) : Piece :=
  (Revision.pick revision piece.1, piece.2)

/-- Rebuild a node with one operand. -/
def rebuild (node : Expr → Build Expr) (pieces : List Piece) : Build (List Piece) :=
  pieces.mapM fun piece => do pure (piece.1, ← node piece.2)

/-- Rebuild a node with two operands. -/
def rebuild₂ (node : Expr → Expr → Build Expr) (firsts seconds : List Piece) :
    Build (List Piece) :=
  (firsts.flatMap fun first => seconds.map fun second => (first, second)).mapM
    fun (first, second) => do
      pure (Revision.pick first.1 second.1, ← node first.2 second.2)

/-- Rebuild a node with three operands. -/
def rebuild₃ (node : Expr → Expr → Expr → Build Expr) (firsts seconds thirds : List Piece) :
    Build (List Piece) :=
  (firsts.flatMap fun first => seconds.flatMap fun second => thirds.map fun third =>
      (first, second, third)).mapM
    fun (first, second, third) => do
      pure (Revision.pick (Revision.pick first.1 second.1) third.1,
        ← node first.2 second.2 third.2)

/-- The number of a combination of pieces, of which there must be one. -/
def revision : List Piece → Except Fault Int
  | [] => .error .noPieces
  | first :: rest => .ok (rest.foldl (fun number piece => Revision.pick number piece.1) first.1)

/-- All ways to take one piece of every operand, the last operand varying fastest. -/
def combinations : List (List Piece) → List (List Piece)
  | [] => [[]]
  | pieces :: rest => pieces.flatMap fun piece => (combinations rest).map (piece :: ·)

/-- An extraction without an offset, of what is not constant. -/
def extractAnywhere (source : Expr) (width : Int) : Build Expr :=
  match source.constant? with
  | some value => do Build.constant (← ofExcept (Word.shiftRight? value none)) width
  | none => do
      let tag ← Build.tag (.extract none source.id) width source.multi
      pure (.loose tag (some .extract) none [source])

/--
Build a node of a kind from one operand more than it needs.  The last operand marks the node as
multi, and nothing but a concatenation of constants is simplified.
-/
def ofMarked (kind : Kind) (operands : List Expr) : Build Expr :=
  match kind, operands with
  | .notOptimized, [source, mark] => do
      let tag ← Build.markedTag (.notOptimized source.id) source.width mark
      pure (.notOptimized tag source)
  | .select, [cond, onTrue, onFalse, mark] => do
      let shape := Shape.select none cond.id onTrue.id onFalse.id
      let tag ← Build.markedTag shape onTrue.width mark
      pure (.select tag none cond onTrue onFalse)
  | .concat, [high, low, mark] =>
      if high.isConstant && low.isConstant then Build.concat high low
      else do
        let tag ← Build.markedTag (.concat high.id low.id) (high.width + low.width) mark
        pure (.concat tag high low)
  | .not, [source, mark] => do
      let tag ← Build.markedTag (.not source.id) source.width mark
      pure (.not tag source)
  | kind, operands => throw (.operandCount kind operands.length)

/-- Build a node of a kind from any number of operands. -/
def ofOperands (kind : Kind) (width : Int) (operands : List Expr) : Build Expr :=
  match kind, operands with
  | .notOptimized, [source] => Build.notOptimized source
  | .read, [index] => throw (if index.isConstant then .absentUpdates else .absent "root")
  | .select, [cond, onTrue, onFalse] => Build.select cond onTrue onFalse
  | .concat, [high, low] => Build.concat high low
  | .extract, [source] => extractAnywhere source width
  | .zext, [source] => Build.zext source width
  | .sext, [source] => Build.sext source width
  | .not, [source] => Build.not source
  | .binary operator, [left, right] => Build.binary operator left right
  | kind, operands => ofMarked kind operands

/-- Rebuild a node put together by hand. -/
def rebuildLoose (kind : Kind) (width : Int) (pieces : List (List Piece)) :
    Build (List Piece) :=
  (combinations pieces).mapM fun combination => do
    let number ← ofExcept (revision combination)
    pure (number, ← ofOperands kind width (combination.map (·.2)))

end Piece

mutual

/-- The pieces of an expression. -/
def Expr.split (expression : Expr) : Build (List Piece) :=
  if expression.multi = false then pure [(Revision.shared, expression)]
  else
    match expression with
    | .const .. => pure [(Revision.shared, expression)]
    | .notOptimized _ source => do
        Piece.rebuild (fun source => Build.notOptimized source) (← source.split)
    | .read _ updates index => do
        Piece.rebuild (fun index => Build.read updates index) (← index.split)
    | .select _ (some (truePatch, falsePatch)) _ onTrue onFalse => do
        let first ← onTrue.split
        let second ← onFalse.split
        pure (first.map (Piece.under truePatch) ++ second.map (Piece.under falsePatch))
    | .select _ none cond onTrue onFalse => do
        let guards ← cond.split
        let firsts ← onTrue.split
        let seconds ← onFalse.split
        Piece.rebuild₃ (fun cond onTrue onFalse => Build.select cond onTrue onFalse)
          guards firsts seconds
    | .concat _ high low => do
        let uppers ← high.split
        let lowers ← low.split
        Piece.rebuild₂ (fun high low => Build.concat high low) uppers lowers
    | .extract tag offset source => do
        Piece.rebuild (fun source => Build.extract source offset tag.width) (← source.split)
    | .zext tag source => do
        Piece.rebuild (fun source => Build.zext source tag.width) (← source.split)
    | .sext tag source => do
        Piece.rebuild (fun source => Build.sext source tag.width) (← source.split)
    | .not _ source => do
        Piece.rebuild (fun source => Build.not source) (← source.split)
    | .binary _ operator left right => do
        let firsts ← left.split
        let seconds ← right.split
        Piece.rebuild₂ (fun left right => Build.binary operator left right) firsts seconds
    | .loose tag kind _ kids =>
        match kind with
        | some .constant => pure [(Revision.shared, expression)]
        | some kind => do Piece.rebuildLoose kind tag.width (← splitEach kids)
        | none => throw (.unsplittable none)

/-- The pieces of several expressions. -/
def splitEach : List Expr → Build (List (List Piece))
  | [] => pure []
  | expression :: rest => do
      let pieces ← expression.split
      pure (pieces :: (← splitEach rest))

end

/-- The pieces of an expression that may be absent. -/
def Expr.split? : Option Expr → Build (List Piece)
  | none => pure []
  | some expression => expression.split

end Diverge
