import Diverge.Kind

/-!
# Expressions

Expressions are trees whose nodes carry an identity.  Two nodes are *the same* when their
identities agree; a table of nodes (see `Diverge.Expr.Table`) hands the identities out, so that
equal trees get one identity.

A read looks an index up in an update history: an array, and on top of it the writes made since,
newest first.  Writes carry an identity too, and histories share their tails.

A node is *multi* when it stands for several revisions of a program at once.
-/

namespace Diverge

/-- A backing array: symbolic, or with known contents. -/
structure ArrayDecl where
  /-- The identity of the array. -/
  id : Nat
  name : String
  size : Int
  /-- The known values, absent for a symbolic array. -/
  contents : Option (List Int)
  /-- The width of an index. -/
  domain : Int
  /-- The width of a value. -/
  range : Int
  deriving DecidableEq, Repr

/-- A symbolic array takes its values from an assignment. -/
def ArrayDecl.isSymbolic (array : ArrayDecl) : Bool :=
  array.contents.isNone

/-- A constant array carries its values. -/
def ArrayDecl.isConstant (array : ArrayDecl) : Bool :=
  array.contents.isSome

/-- What every node carries: its identity, its width in bits, and whether it is multi. -/
structure Tag where
  id : Nat
  width : Int
  multi : Bool
  deriving DecidableEq, Repr

mutual

/-- Expressions. -/
inductive Expr where
  | const (tag : Tag) (value : Int)
  /-- A value that must not be simplified away. -/
  | notOptimized (tag : Tag) (source : Expr)
  | read (tag : Tag) (updates : Updates) (index : Expr)
  /-- A choice; with revision numbers, a choice between two revisions. -/
  | select (tag : Tag) (patches : Option (Int × Int)) (cond onTrue onFalse : Expr)
  | concat (tag : Tag) (high low : Expr)
  | extract (tag : Tag) (offset : Int) (source : Expr)
  | zext (tag : Tag) (source : Expr)
  | sext (tag : Tag) (source : Expr)
  | not (tag : Tag) (source : Expr)
  | binary (tag : Tag) (operator : BinaryOp) (left right : Expr)
  /--
  A node put together by hand: with operands or a value that do not fit its kind, or without a
  kind.
  -/
  | loose (tag : Tag) (kind : Option Kind) (value : Option Int) (kids : List Expr)

/-- Update histories: an array, or a write on top of an older history. -/
inductive Updates where
  | root (array : ArrayDecl)
  | write (id : Nat) (index value : Expr) (older : Updates)

end

namespace Updates

/-- The array at the bottom of a history. -/
def array : Updates → ArrayDecl
  | .root array => array
  | .write _ _ _ older => older.array

/-- The identity of the newest write. -/
def newest? : Updates → Option Nat
  | .root _ => none
  | .write id _ _ _ => some id

/-- The number of writes. -/
def length : Updates → Nat
  | .root _ => 0
  | .write _ _ _ older => older.length + 1

/-- Two histories are the same when they share the array and the newest write. -/
def same (left right : Updates) : Bool :=
  left.array.id == right.array.id && left.newest? == right.newest?

end Updates

namespace Expr

/-- What the node carries. -/
def tag : Expr → Tag
  | .const tag _ | .notOptimized tag _ | .read tag _ _ | .select tag _ _ _ _
  | .concat tag _ _ | .extract tag _ _ | .zext tag _ | .sext tag _ | .not tag _
  | .binary tag _ _ _ | .loose tag _ _ _ => tag

/-- The identity of a node. -/
def id (expression : Expr) : Nat :=
  expression.tag.id

/-- The width in bits. -/
def width (expression : Expr) : Int :=
  expression.tag.width

/-- Whether the node stands for several revisions. -/
def multi (expression : Expr) : Bool :=
  expression.tag.multi

/-- Two expressions are the same node. -/
def same (left right : Expr) : Bool :=
  left.id == right.id

/-- The kind of a node; only a node put together by hand may have none. -/
def kind? : Expr → Option Kind
  | .const .. => some .constant
  | .notOptimized .. => some .notOptimized
  | .read .. => some .read
  | .select .. => some .select
  | .concat .. => some .concat
  | .extract .. => some .extract
  | .zext .. => some .zext
  | .sext .. => some .sext
  | .not .. => some .not
  | .binary _ operator _ _ => some (.binary operator)
  | .loose _ kind _ _ => kind

/-- The operands of a node; those of a read are its index alone. -/
def kids : Expr → List Expr
  | .const .. => []
  | .notOptimized _ source => [source]
  | .read _ _ index => [index]
  | .select _ _ cond onTrue onFalse => [cond, onTrue, onFalse]
  | .concat _ high low => [high, low]
  | .extract _ _ source => [source]
  | .zext _ source => [source]
  | .sext _ source => [source]
  | .not _ source => [source]
  | .binary _ _ left right => [left, right]
  | .loose _ _ _ kids => kids

/-- The update history of a read. -/
def updates? : Expr → Option Updates
  | .read _ updates _ => some updates
  | _ => none

/-- The value field of a node. -/
def value? : Expr → Option Int
  | .const _ value => some value
  | .loose _ _ value _ => value
  | _ => none

/-- The bit offset of an extraction. -/
def offset? : Expr → Option Int
  | .extract _ offset _ => some offset
  | _ => none

/-- The two revision numbers of a revision select. -/
def patches? : Expr → Option (Int × Int)
  | .select _ patches _ _ _ => patches
  | _ => none

/-- Whether the node is a constant. -/
def isConstant (expression : Expr) : Bool :=
  expression.kind? == some .constant

/-- The value of a constant, which one put together by hand may lack. -/
def constant? (expression : Expr) : Option (Option Int) :=
  if expression.isConstant then some expression.value? else none

/-- The one-bit constant 1. -/
def isTrue (expression : Expr) : Bool :=
  expression.width == 1 && expression.constant? == some (some 1)

/-- The one-bit constant 0. -/
def isFalse (expression : Expr) : Bool :=
  expression.width == 1 && expression.constant? == some (some 0)

/-- A read that was put together by hand and has no history. -/
def lacksHistory : Expr → Bool
  | .loose _ kind _ _ => kind == some .read
  | _ => false

end Expr

end Diverge
