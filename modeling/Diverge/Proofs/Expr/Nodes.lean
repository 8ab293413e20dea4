import Diverge.Expr.Build
import Diverge.Expr.Evaluate
import Diverge.Expr.Parts
import Diverge.Proofs.Words

/-!
# Conditions on the nodes of an expression

A condition on single nodes holds *throughout* an expression when it holds of all
its parts, the writes of histories included.  Three conditions of this kind are
used everywhere:

* a node is *proper* when its width and its multi mark are those which its
  constructor gives it, and it was not put together by hand;
* an expression is *well typed* when its widths are positive and those of
  operands, branches and written values match; and
* its arrays *fit* an assignment when the values they hold are words of their
  range.
-/

namespace Diverge

/-- A condition on the nodes of an expression and of the writes below it. -/
def Expr.Throughout (condition : Expr → Prop) (expression : Expr) : Prop :=
  ∀ part ∈ expression.parts, condition part

/-- A condition on the nodes of all indices and values written in a history. -/
def Updates.Throughout (condition : Expr → Prop) (updates : Updates) : Prop :=
  ∀ part ∈ updates.parts, condition part

section

variable {condition weaker : Expr → Prop}

/-- What holds throughout an expression holds of the expression. -/
theorem Expr.Throughout.self
    {expression : Expr}
    (holds : expression.Throughout condition) :
    condition expression :=
  holds expression expression.self_mem_parts

/-- A condition that holds throughout may be weakened at each node. -/
theorem Expr.Throughout.mono
    {expression : Expr}
    (holds : expression.Throughout condition)
    (implies : ∀ node, condition node → weaker node) :
    expression.Throughout weaker :=
  fun part member => implies part (holds part member)

theorem Updates.Throughout.mono
    {updates : Updates}
    (holds : updates.Throughout condition)
    (implies : ∀ node, condition node → weaker node) :
    updates.Throughout weaker :=
  fun part member => implies part (holds part member)

/-! ## One equation for each constructor -/

@[simp]
theorem Expr.throughout_const (tag : Tag) (value : Int) :
    (Expr.const tag value).Throughout condition ↔ condition (.const tag value) := by
  simp [Expr.Throughout, Expr.parts]

@[simp]
theorem Expr.throughout_notOptimized (tag : Tag) (source : Expr) :
    (Expr.notOptimized tag source).Throughout condition ↔
      condition (.notOptimized tag source) ∧ source.Throughout condition := by
  simp [Expr.Throughout, Expr.parts]

/--
Throughout a read means throughout its index and its history too, the values that were written
included.
-/
@[simp]
theorem Expr.throughout_read (tag : Tag) (updates : Updates) (index : Expr) :
    (Expr.read tag updates index).Throughout condition ↔
      condition (.read tag updates index) ∧
        index.Throughout condition ∧ updates.Throughout condition := by
  simp [Expr.Throughout, Updates.Throughout, Expr.parts, or_imp, forall_and]

@[simp]
theorem Expr.throughout_select
    (tag : Tag) (patches : Option (Int × Int)) (cond onTrue onFalse : Expr) :
    (Expr.select tag patches cond onTrue onFalse).Throughout condition ↔
      condition (.select tag patches cond onTrue onFalse) ∧
        cond.Throughout condition ∧
          onTrue.Throughout condition ∧ onFalse.Throughout condition := by
  simp [Expr.Throughout, Expr.parts, or_imp, forall_and]

@[simp]
theorem Expr.throughout_concat (tag : Tag) (high low : Expr) :
    (Expr.concat tag high low).Throughout condition ↔
      condition (.concat tag high low) ∧
        high.Throughout condition ∧ low.Throughout condition := by
  simp [Expr.Throughout, Expr.parts, or_imp, forall_and]

@[simp]
theorem Expr.throughout_extract (tag : Tag) (offset : Int) (source : Expr) :
    (Expr.extract tag offset source).Throughout condition ↔
      condition (.extract tag offset source) ∧ source.Throughout condition := by
  simp [Expr.Throughout, Expr.parts]

@[simp]
theorem Expr.throughout_zext (tag : Tag) (source : Expr) :
    (Expr.zext tag source).Throughout condition ↔
      condition (.zext tag source) ∧ source.Throughout condition := by
  simp [Expr.Throughout, Expr.parts]

@[simp]
theorem Expr.throughout_sext (tag : Tag) (source : Expr) :
    (Expr.sext tag source).Throughout condition ↔
      condition (.sext tag source) ∧ source.Throughout condition := by
  simp [Expr.Throughout, Expr.parts]

@[simp]
theorem Expr.throughout_not (tag : Tag) (source : Expr) :
    (Expr.not tag source).Throughout condition ↔
      condition (.not tag source) ∧ source.Throughout condition := by
  simp [Expr.Throughout, Expr.parts]

@[simp]
theorem Expr.throughout_binary
    (tag : Tag) (operator : BinaryOp) (left right : Expr) :
    (Expr.binary tag operator left right).Throughout condition ↔
      condition (.binary tag operator left right) ∧
        left.Throughout condition ∧ right.Throughout condition := by
  simp [Expr.Throughout, Expr.parts, or_imp, forall_and]

@[simp]
theorem Updates.throughout_root (array : ArrayDecl) :
    (Updates.root array).Throughout condition := by
  simp [Updates.Throughout, Updates.parts]

/-- Throughout a history means at the index and the value of every write. -/
@[simp]
theorem Updates.throughout_write (id : Nat) (index value : Expr) (older : Updates) :
    (Updates.write id index value older).Throughout condition ↔
      index.Throughout condition ∧
        value.Throughout condition ∧ older.Throughout condition := by
  simp [Updates.Throughout, Expr.Throughout, Updates.parts, or_imp, forall_and]

/-- What holds throughout a history holds throughout what was written in it. -/
theorem Updates.Throughout.of_mem_written
    {value : Expr}
    {updates : Updates}
    (holds : updates.Throughout condition)
    (member : value ∈ updates.written) :
    value.Throughout condition := by
  match updates with
  | .root array => cases member
  | .write id index written older =>
      rw [Updates.throughout_write] at holds
      rcases List.mem_cons.1 member with rfl | later
      · exact holds.1
      · rcases List.mem_cons.1 later with rfl | below
        · exact holds.2.1
        · exact holds.2.2.of_mem_written below

/-- What holds throughout an expression holds throughout its operands. -/
theorem Expr.Throughout.kid
    {expression kid : Expr}
    (holds : expression.Throughout condition)
    (member : kid ∈ expression.kids) :
    kid.Throughout condition := by
  cases expression with
  | const tag value => simp [Expr.kids] at member
  | loose tag kind value kids =>
      intro part inside
      refine holds part (List.mem_cons_of_mem _ ?_)
      have inEach : ∀ expressions : List Expr, kid ∈ expressions →
          part ∈ partsEach expressions := by
        intro expressions among
        induction expressions with
        | nil => simp at among
        | cons first rest inductionHypothesis =>
            rcases List.mem_cons.1 among with rfl | later
            · exact List.mem_append_left _ inside
            · exact List.mem_append_right _ (inductionHypothesis later)
      exact inEach kids member
  | read tag updates index =>
      rw [List.mem_singleton.1 member]
      exact ((Expr.throughout_read tag updates index).1 holds).2.1
  | select tag patches cond onTrue onFalse =>
      have parts := ((Expr.throughout_select tag patches cond onTrue onFalse).1 holds).2
      simp only [Expr.kids, List.mem_cons, List.not_mem_nil, or_false] at member
      rcases member with rfl | rfl | rfl
      · exact parts.1
      · exact parts.2.1
      · exact parts.2.2
  | concat tag high low =>
      have parts := ((Expr.throughout_concat tag high low).1 holds).2
      simp only [Expr.kids, List.mem_cons, List.not_mem_nil, or_false] at member
      rcases member with rfl | rfl
      · exact parts.1
      · exact parts.2
  | binary tag operator left right =>
      have parts := ((Expr.throughout_binary tag operator left right).1 holds).2
      simp only [Expr.kids, List.mem_cons, List.not_mem_nil, or_false] at member
      rcases member with rfl | rfl
      · exact parts.1
      · exact parts.2
  | _ =>
      simp only [Expr.kids, List.mem_singleton] at member
      subst member
      simp_all

end

/-! ## Proper nodes -/

/-- The width of a node is the one that its constructor gives it. -/
def Expr.Measured : Expr → Prop
  | .const tag value => 0 ≤ tag.width ∧ 0 ≤ value ∧ value < 2 ^ tag.width.toNat
  | .notOptimized tag source => tag.width = source.width
  | .read tag updates _ => tag.width = updates.array.range
  | .select tag _ _ onTrue _ => tag.width = onTrue.width
  | .concat tag high low => tag.width = high.width + low.width
  | .extract .. | .zext .. | .sext .. => True
  | .not tag source => tag.width = source.width
  | .binary tag operator left _ => tag.width = Build.resultWidth operator left
  | .loose .. => False

/-- Among nodes that the constructors make, the kind tells a constant. -/
theorem Expr.eq_const_of_isConstant
    {node : Expr}
    (measured : node.Measured)
    (constant : node.isConstant = true) :
    ∃ tag value, node = .const tag value := by
  cases node with
  | const tag value => exact ⟨tag, value, rfl⟩
  | loose tag kind value kids => exact measured.elim
  | _ => simp [Expr.isConstant, Expr.kind?] at constant

/-- A node as the constructors make it. -/
structure Expr.Proper (node : Expr) : Prop where
  measured : node.Measured
  /-- A multi operand makes a node multi. -/
  inherits : ∀ kid ∈ node.kids, kid.multi = true → node.multi = true
  /-- A revision select is multi. -/
  revised : node.patches?.isSome = true → node.multi = true := by
    simp [Expr.patches?]
  /-- A constant is not. -/
  plain : node.isConstant = true → node.multi = false := by
    simp [Expr.isConstant, Expr.kind?]

section

variable {condition : Expr → Prop} {node : Expr}

/-- What holds of a node and throughout its operands and history holds throughout. -/
theorem Expr.throughout_of_kids
    (measured : node.Measured)
    (self : condition node)
    (kids : ∀ kid ∈ node.kids, kid.Throughout condition)
    (history : ∀ updates ∈ node.updates?, updates.Throughout condition) :
    node.Throughout condition := by
  cases node with
  | loose tag kind value operands => exact measured.elim
  | _ => simp_all [Expr.kids, Expr.updates?]

/-- What holds throughout a node holds throughout the history that it reads. -/
theorem Expr.Throughout.history
    {updates : Updates}
    (holds : node.Throughout condition)
    (member : updates ∈ node.updates?) :
    updates.Throughout condition := by
  cases node with
  | read tag other index =>
      cases member
      exact ((Expr.throughout_read tag updates index).1 holds).2.2
  | _ => cases member

end

/-! ## Widths and contents -/

/-- The values written in a history are as wide as those of its array. -/
def Updates.Matched : Updates → Prop
  | .root _ => True
  | .write _ _ value older => value.width = older.array.range ∧ older.Matched

/-- The widths of what stands next to a node match. -/
def Expr.Matched : Expr → Prop
  | .read _ updates _ => updates.Matched
  | .select _ _ _ onTrue onFalse => onTrue.width = onFalse.width
  | .zext tag source => source.width ≤ tag.width
  | .binary _ _ left right => left.width = right.width
  | _ => True

/--
All widths are positive, operands and branches match, written values match their
array, and no zero extension is narrower than its operand.
-/
def Expr.WellTyped (expression : Expr) : Prop :=
  expression.Throughout fun node => 0 < node.width ∧ node.Matched

/-- The widths of what stands next to a node match; an extension may be of any width. -/
def Expr.Aligned : Expr → Prop
  | .read _ updates _ => updates.Matched
  | .select _ _ _ onTrue onFalse => onTrue.width = onFalse.width
  | .binary _ _ left right => left.width = right.width
  | _ => True

/--
All widths are positive, operands and branches match, and written values match their
array.  A zero extension may be narrower than its operand.
-/
def Expr.Balanced (expression : Expr) : Prop :=
  expression.Throughout fun node => 0 < node.width ∧ node.Aligned

/-- A zero extension that is not multi is at least as wide as its operand. -/
def Expr.Widening (node : Expr) : Prop :=
  ∀ tag source, node = .zext tag source → tag.multi = false → source.width ≤ tag.width

/-- The values that an array holds under an assignment. -/
def ArrayDecl.values (array : ArrayDecl) (assignment : Assignment) : List Int :=
  array.contents.getD ((assignment array.id).map fun byte => (byte.toNat : Int))

/-- The values that an array holds are words of its range. -/
def ArrayDecl.Fits (array : ArrayDecl) (assignment : Assignment) : Prop :=
  ∀ value ∈ array.values assignment, 0 ≤ value ∧ value < 2 ^ array.range.toNat

/-- The contents of all arrays of an expression are words of their ranges. -/
def Expr.ArraysFit (assignment : Assignment) (expression : Expr) : Prop :=
  expression.Throughout fun node =>
    ∀ updates ∈ node.updates?, updates.array.Fits assignment

end Diverge
