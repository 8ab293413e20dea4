import Diverge.Proofs.Constraints
import Diverge.Proofs.Expr.Texts

/-!
# Properties that logical operators inherit

A *bit* is a well-typed expression of width one.  Whatever the constructors of
conjunctions and disjunctions do with two bits, they end with a result, and the
result is one of the two, a constant or a new node (`Build.returns_binary`).  A
property that constant bits have, that new nodes inherit and that is passed on to the
operands of a conjunction is *logical*; being a bit, having a text and being a
condition are.  What has a logical property keeps it when constraints are joined.
-/

namespace Diverge

open Stateful

/-- A node with the width of its constructor and operands that match. -/
structure Expr.Typed (node : Expr) : Prop where
  measured : node.Measured
  matched : node.Matched
  width_pos : 0 < node.width

/-- A well-typed expression of width one. -/
structure Expr.Bit (expression : Expr) : Prop where
  typed : expression.Throughout Expr.Typed
  width_eq : expression.width = 1

/-! ## Bits -/

theorem Expr.bit_const
    {tag : Tag}
    (width : tag.width = 1)
    (truth : Bool) :
    (Expr.const tag (Word.ofBool truth)).Bit := by
  refine ⟨?_, width⟩
  rw [Expr.throughout_const]
  constructor
  · show 0 ≤ tag.width ∧ 0 ≤ Word.ofBool truth ∧ Word.ofBool truth < 2 ^ tag.width.toNat
    rw [width]
    cases truth <;> decide
  · trivial
  · show 0 < tag.width
    rw [width]
    exact one_pos

/-- A logical node on bits is a bit. -/
theorem Expr.bit_binary
    {operator : BinaryOp}
    {tag : Tag}
    {left right : Expr}
    (logical : operator.IsLogical)
    (width : tag.width = 1)
    (bitLeft : left.Bit)
    (bitRight : right.Bit) :
    (Expr.binary tag operator left right).Bit := by
  refine ⟨?_, width⟩
  rw [Expr.throughout_binary]
  refine ⟨?_, bitLeft.typed, bitRight.typed⟩
  constructor
  · show tag.width = Build.resultWidth operator left
    rw [logical.resultWidth, width, bitLeft.width_eq]
  · show left.width = right.width
    rw [bitLeft.width_eq, bitRight.width_eq]
  · show 0 < tag.width
    rw [width]
    exact one_pos

/-- The operands of a conjunction of one bit are bits. -/
theorem Expr.Bit.of_and
    {tag : Tag}
    {left right : Expr}
    (bit : (Expr.binary tag .and left right).Bit) :
    left.Bit ∧ right.Bit := by
  have typed := bit.typed
  rw [Expr.throughout_binary] at typed
  have width : tag.width = left.width := typed.1.measured
  have matched : left.width = right.width := typed.1.matched
  have isBit : tag.width = 1 := bit.width_eq
  constructor
  · exact ⟨typed.2.1, width.symm.trans isBit⟩
  · exact ⟨typed.2.2, matched.symm.trans (width.symm.trans isBit)⟩

/-- A bit that is a constant node. -/
theorem Expr.Bit.eq_const
    {expression : Expr}
    (bit : expression.Bit)
    (constant : expression.isConstant = true) :
    ∃ tag truth, expression = .const tag (Word.ofBool truth) ∧ tag.width = 1 := by
  obtain ⟨tag, value, rfl⟩ := Expr.eq_const_of_isConstant bit.typed.self.measured constant
  obtain ⟨_, nonneg, bound⟩ :
      0 ≤ tag.width ∧ 0 ≤ value ∧ value < 2 ^ tag.width.toNat :=
    bit.typed.self.measured
  have width : tag.width = 1 := bit.width_eq
  rw [width] at bound
  have cases : value = 0 ∨ value = 1 := by
    simp at bound
    omega
  rcases cases with rfl | rfl
  · exact ⟨tag, false, rfl, width⟩
  · exact ⟨tag, true, rfl, width⟩

/-! ## What the constructors make of two bits -/

/-- What a logical operator may be simplified to. -/
inductive Build.Combines (operator : BinaryOp) (left right : Expr) : Expr → Prop where
  | first : Combines operator left right left
  | second : Combines operator left right right
  | node
      {tag : Tag}
      (width : tag.width = 1) :
      Combines operator left right (.binary tag operator left right)
  | constant
      {tag leftTag rightTag : Tag}
      {first second : Bool}
      (width : tag.width = 1)
      (isLeft : left = .const leftTag (Word.ofBool first))
      (isRight : right = .const rightTag (Word.ofBool second)) :
      Combines operator left right
        (.const tag (Word.ofBool (operator.combine first second)))

section

variable
  {operator : BinaryOp}
  {left right : Expr}
  {table : Table}

theorem Build.returns_constant
    (truth : Bool)
    (table : Table) :
    Returns (Build.constant (Word.ofBool truth) 1) table fun result _ =>
      ∃ tag : Tag, tag.width = 1 ∧ result = .const tag (Word.ofBool truth) := by
  refine Returns.bind (Returns.ofExcept (Word.truncate_ofBool truth) ?_)
  constructor
  · exact (Build.succeeds_tag _ _ _ table).bind fun _ _ _ => Succeeds.pure _ _
  · intro result later ran
    obtain ⟨tag, rfl, _, width, _⟩ := Build.constNode_spec ran
    exact ⟨tag, width, rfl⟩

/-- Bits that are not simplified are combined by a node. -/
theorem Build.returns_binaryNode
    (logical : operator.IsLogical)
    (width : left.width = 1) :
    Returns (Build.binaryNode operator left right false) table fun result _ =>
      Build.Combines operator left right result := by
  constructor
  · exact (Build.succeeds_tag _ _ _ table).bind fun _ _ _ => Succeeds.pure _ _
  · intro result later ran
    obtain ⟨tag, rfl, _, tagWidth, _⟩ := Build.binaryNode_spec ran
    rw [logical.resultWidth, width] at tagWidth
    exact .node tagWidth

/-- Two bits are always combined, to one of them, to a constant or to a node. -/
theorem Build.returns_binary
    (logical : operator.IsLogical)
    (bitLeft : left.Bit)
    (bitRight : right.Bit) :
    Returns (Build.binary operator left right) table fun result _ =>
      Build.Combines operator left right result := by
  have width := bitLeft.width_eq
  have opened : Returns (Build.binaryOpen operator left right) table fun result _ =>
      Build.Combines operator left right result := by
    unfold Build.binaryOpen
    rw [if_pos ⟨logical, width⟩]
    split
    · rename_i simpler simplified
      rcases Build.simplifyLogic_mem simplified with rfl | rfl
      · exact Returns.pure .first
      · exact Returns.pure .second
    · exact Build.returns_binaryNode logical width
  unfold Build.binary
  simp only [Bool.false_eq_true, if_false]
  split
  · rename_i constLeft constRight
    obtain ⟨leftTag, first, rfl, _⟩ :=
      bitLeft.eq_const (Expr.isConstant_of_constant? constLeft)
    obtain ⟨rightTag, second, rfl, _⟩ :=
      bitRight.eq_const (Expr.isConstant_of_constant? constRight)
    cases constLeft
    cases constRight
    have applied : operator.applyPresent
        (Expr.const leftTag (Word.ofBool first)).value?
        (Expr.const rightTag (Word.ofBool second)).value?
        (Expr.const leftTag (Word.ofBool first)).width =
          .ok (some (Word.ofBool (operator.combine first second))) := by
      rw [width, Expr.value?, Expr.value?, BinaryOp.applyPresent_some,
        operator.apply_ofBool logical]
    refine Returns.bind (Returns.ofExcept applied ?_)
    rw [logical.resultWidth, width]
    refine (Build.returns_constant _ table).mono ?_
    rintro result _ ⟨tag, tagWidth, rfl⟩
    exact .constant tagWidth rfl rfl
  · exact opened

end

/-! ## Closed properties -/

/-- A property of bits that is kept when bits are combined. -/
structure Build.Closed (property : Expr → Prop) : Prop where
  bit : ∀ expression, property expression → expression.Bit
  top : ∀ tag : Tag, tag.width = 1 → property (.const tag (Word.ofBool true))
  combines : ∀ {operator left right result}, operator.IsLogical →
    property left → property right → Build.Combines operator left right result →
      property result

section

variable
  {property : Expr → Prop}
  {table : Table}

/--
What is closed under combining holds of a conjunction or disjunction, and building it does not
fail.
-/
theorem Build.Closed.returns_binary
    (closed : Build.Closed property)
    {operator : BinaryOp}
    {left right : Expr}
    (logical : operator.IsLogical)
    (ofLeft : property left)
    (ofRight : property right) :
    Returns (Build.binary operator left right) table fun result _ => property result :=
  (Build.returns_binary logical (closed.bit left ofLeft) (closed.bit right ofRight)).mono
    fun _ _ combined => closed.combines logical ofLeft ofRight combined

theorem Build.Closed.returns_foldlM
    (closed : Build.Closed property)
    (expressions : List Expr)
    (ofAll : ∀ expression ∈ expressions, property expression)
    {start : Expr}
    (ofStart : property start) :
    Returns (expressions.foldlM (fun left right => Build.binary .and left right) start) table
      fun result _ => property result := by
  induction expressions generalizing start table with
  | nil => exact Returns.pure ofStart
  | cons expression rest inductionHypothesis =>
      rw [List.foldlM_cons]
      refine Returns.bind ((closed.returns_binary (.inl rfl) ofStart
        (ofAll expression List.mem_cons_self)).mono ?_)
      intro middle between ofMiddle
      exact inductionHypothesis
        (fun other member => ofAll other (List.mem_cons_of_mem _ member)) ofMiddle

/-- The same for the conjunction of a list, which starts from the constant true. -/
theorem Build.Closed.returns_conjunction
    (closed : Build.Closed property)
    (expressions : List Expr)
    (ofAll : ∀ expression ∈ expressions, property expression) :
    Returns (Build.conjunction expressions) table fun result _ => property result := by
  refine Returns.bind ((Build.returns_constant true table).mono ?_)
  rintro _ between ⟨tag, width, rfl⟩
  exact closed.returns_foldlM expressions ofAll (closed.top tag width)

/-! ## Possible bits -/

theorem Expr.isFalse_binary
    (tag : Tag)
    (operator : BinaryOp)
    (left right : Expr) :
    (Expr.binary tag operator left right).isFalse = false := by
  simp [Expr.isFalse, Expr.constant?, Expr.isConstant, Expr.kind?]

/-- Of the two constants only the true one can be added as a constraint. -/
theorem Expr.isPossible_const_iff
    {tag : Tag}
    {truth : Bool}
    (width : tag.width = 1) :
    (Expr.const tag (Word.ofBool truth)).IsPossible ↔ truth = true := by
  cases truth <;>
    simp [Expr.IsPossible, Expr.conjuncts, Expr.isFalse, Expr.width, Expr.tag,
      Expr.constant?, Expr.isConstant, Expr.kind?, Expr.value?, width, Word.ofBool]

/-- A node none of whose operands has a false conjunct has none. -/
theorem Expr.isPossible_binary
    {operator : BinaryOp}
    {tag : Tag}
    {left right : Expr}
    (width : tag.width = 1)
    (possibleLeft : left.IsPossible)
    (possibleRight : right.IsPossible) :
    (Expr.binary tag operator left right).IsPossible := by
  refine ⟨width, ?_⟩
  have alone : ∀ leaf ∈ [Expr.binary tag operator left right], leaf.isFalse = false := by
    rw [List.forall_mem_singleton]
    exact Expr.isFalse_binary _ _ _ _
  cases operator with
  | and =>
      unfold Expr.conjuncts
      split
      · exact alone
      · rw [List.forall_mem_append]
        exact ⟨possibleLeft.2, possibleRight.2⟩
  | _ => exact alone

/-- A bit of which no conjunct is false. -/
def Expr.IsGuard (expression : Expr) : Prop :=
  expression.Bit ∧ expression.IsPossible

/-- Guards are closed under combining: a bit that may hold stays one. -/
theorem Build.closed_isGuard : Build.Closed Expr.IsGuard where
  bit := fun _ both => both.1
  top := fun tag width =>
    ⟨Expr.bit_const width true, (Expr.isPossible_const_iff width).2 rfl⟩
  combines := by
    intro operator left right result logical ofLeft ofRight combined
    cases combined with
    | first => exact ofLeft
    | second => exact ofRight
    | node width =>
        exact ⟨Expr.bit_binary logical width ofLeft.1 ofRight.1,
          Expr.isPossible_binary width ofLeft.2 ofRight.2⟩
    | @constant tag leftTag rightTag first second width isLeft isRight =>
        subst isLeft
        subst isRight
        have isFirst := (Expr.isPossible_const_iff ofLeft.1.width_eq).1 ofLeft.2
        have isSecond := (Expr.isPossible_const_iff ofRight.1.width_eq).1 ofRight.2
        subst isFirst
        subst isSecond
        have isTrue : operator.combine true true = true := by
          rcases logical with rfl | rfl <;> rfl
        rw [isTrue]
        exact ⟨Expr.bit_const width true, (Expr.isPossible_const_iff width).2 rfl⟩

/-! ## Logical properties -/

/-- A property of bits that nodes inherit, and that conjunctions hand down. -/
structure Expr.Logical (property : Expr → Prop) : Prop where
  bit : ∀ expression, property expression → expression.Bit
  constant : ∀ (tag : Tag) (truth : Bool), tag.width = 1 →
    property (.const tag (Word.ofBool truth))
  node : ∀ {operator tag left right}, operator.IsLogical → tag.width = 1 →
    property left → property right → property (.binary tag operator left right)
  operands : ∀ {tag left right}, property (.binary tag .and left right) →
    property left ∧ property right

/-- A logical property is closed under combining. -/
theorem Expr.Logical.closed
    (logical : Expr.Logical property) :
    Build.Closed property where
  bit := logical.bit
  top := fun tag width => logical.constant tag true width
  combines := by
    intro operator left right result isLogical ofLeft ofRight combined
    cases combined with
    | first => exact ofLeft
    | second => exact ofRight
    | node width => exact logical.node isLogical width ofLeft ofRight
    | constant width _ _ => exact logical.constant _ _ width

/-- Conjuncts inherit a logical property. -/
theorem Expr.Logical.of_mem_conjuncts
    (logical : Expr.Logical property)
    {expression leaf : Expr}
    (holds : property expression)
    (member : leaf ∈ expression.conjuncts) :
    property leaf :=
  Expr.conjuncts_induction (fun _ is => (logical.bit _ is).typed.self.measured)
    (fun _ _ _ is => logical.operands is) expression holds leaf member

theorem Expr.logical_bit : Expr.Logical Expr.Bit where
  bit := fun _ bit => bit
  constant := fun _ truth width => Expr.bit_const width truth
  node := Expr.bit_binary
  operands := Expr.Bit.of_and

/-- Having a text is a logical property: a node of one bit shows no integer but its width. -/
theorem Expr.logical_hasText :
    Expr.Logical fun expression => expression.Bit ∧ expression.HasText where
  bit := fun _ both => both.1
  constant := fun _ truth width =>
    ⟨Expr.bit_const width truth,
      Expr.hasText_const.2 (Expr.short_of_numbers (if_pos width))⟩
  node := by
    intro operator tag left right logical width ofLeft ofRight
    have short : tag.width.natAbs < Integer.limit := by
      rw [width]
      exact Integer.lt_limit (by decide)
    exact ⟨Expr.bit_binary logical width ofLeft.1 ofRight.1,
      Expr.hasText_binary.2 ⟨ofLeft.2, ofRight.2, short⟩⟩
  operands := by
    rintro tag left right ⟨bit, text⟩
    obtain ⟨bitLeft, bitRight⟩ := bit.of_and
    obtain ⟨textLeft, textRight, _⟩ := Expr.hasText_binary.1 text
    exact ⟨⟨bitLeft, textLeft⟩, ⟨bitRight, textRight⟩⟩

/-- Being a condition under an assignment is a logical property. -/
theorem Expr.logical_condition
    (assignment : Assignment) :
    Expr.Logical (Expr.Condition assignment) where
  bit := fun _ condition =>
    ⟨condition.sized.mono fun _ sized => ⟨sized.measured, sized.matched, sized.width_pos⟩,
      condition.width_eq⟩
  constant := fun _ _ width => (Expr.condition_const width).1
  node := fun logical width left right => Expr.condition_binary logical width left right
  operands := Expr.Condition.of_and

end

/-! ## Joining conditions -/

/-- An expression that stands for several together. -/
structure Build.Conjoins (expressions : List Expr) (result : Expr) : Prop where
  inherits : ∀ property, Expr.Logical property →
    (∀ expression ∈ expressions, property expression) → property result
  holds_iff : ∀ assignment, (∀ expression ∈ expressions, expression.Condition assignment) →
    (result.Holds assignment ↔ ∀ expression ∈ expressions, expression.Holds assignment)

/-- An expression that stands for one or the other. -/
structure Build.Disjoins (first second result : Expr) : Prop where
  inherits : ∀ property, Expr.Logical property →
    property first → property second → property result
  holds_iff : ∀ assignment, first.Condition assignment → second.Condition assignment →
    (result.Holds assignment ↔ first.Holds assignment ∨ second.Holds assignment)

section

variable
  {histories : List Updates}
  {table : Table}
  {safe : Prop}

/--
The conjunction of registered constraints stands for all of them; it fails only if one of them
is no guard.
-/
theorem Build.moves_conjunction
    (supports : table.Supports histories)
    (expressions : List Expr)
    (registered : ∀ expression ∈ expressions, expression.Registered histories table)
    (guards : safe → ∀ expression ∈ expressions, expression.IsGuard) :
    Moves Table.Grows (Build.conjunction expressions) table
      (fun result later =>
        result.Registered histories later ∧ Build.Conjoins expressions result ∧
          (safe → result.IsGuard)) safe := by
  have possible (isSafe : safe) :=
    @Build.Closed.returns_conjunction _ table Build.closed_isGuard expressions
      (guards isSafe)
  refine (Build.stable_conjunction expressions).moves_of_total
    (fun isSafe => (possible isSafe).1) ?_
  intro result later ran
  obtain ⟨registeredResult, decided⟩ :=
    Build.condition_conjunction supports expressions registered ran
  refine ⟨registeredResult, ⟨?_, ?_⟩, fun isSafe => (possible isSafe).2 ran⟩
  · intro property logical ofAll
    exact (logical.closed.returns_conjunction expressions ofAll).2 ran
  · intro assignment conditions
    exact (decided assignment conditions).2

/-- The disjunction of two registered guards stands for one or the other. -/
theorem Build.moves_or
    (supports : table.Supports histories)
    {first second : Expr}
    (registeredFirst : first.Registered histories table)
    (registeredSecond : second.Registered histories table)
    (guardFirst : safe → first.IsGuard)
    (guardSecond : safe → second.IsGuard) :
    Moves Table.Grows (Build.binary .or first second) table
      (fun result later =>
        result.Registered histories later ∧ Build.Disjoins first second result ∧
          (safe → result.IsGuard)) safe := by
  have isLogical : BinaryOp.or.IsLogical := .inr rfl
  have possible (isSafe : safe) :=
    @Build.Closed.returns_binary _ table Build.closed_isGuard _ _ _ isLogical
      (guardFirst isSafe) (guardSecond isSafe)
  refine (Build.stable_binary .or first second false).moves_of_total
    (fun isSafe => (possible isSafe).1) ?_
  intro result later ran
  refine ⟨Build.registered_binary registeredFirst registeredSecond ran, ⟨?_, ?_⟩,
    fun isSafe => (possible isSafe).2 ran⟩
  · intro property logical ofFirst ofSecond
    exact (logical.closed.returns_binary isLogical ofFirst ofSecond).2 ran
  · intro assignment condition conditionToo
    exact (Build.condition_or (Expr.Registered.eq_of_same supports registeredFirst
      registeredSecond) condition conditionToo ran).2

end

/-! ## Adding to a set -/

namespace ConstraintSet

/-- Every constraint has a text. -/
def HaveTexts (set : ConstraintSet) : Prop :=
  ∀ entry ∈ set.entries, entry.HasText

/-- No constraint shows an integer with too many digits for a text. -/
def AreShort (set : ConstraintSet) : Prop :=
  ∀ entry ∈ set.entries, entry.Throughout Expr.Short

/-- Constraints that the constructors made have texts if no integer in them has too many digits. -/
theorem haveTexts_iff
    {histories : List Updates}
    {table : Table}
    {set : ConstraintSet}
    (registered : set.Registered histories table) :
    set.HaveTexts ↔ set.AreShort :=
  forall₂_congr fun entry member => entry.hasText_iff (registered entry member).proper

/-- What a set becomes when constraints are added to it. -/
structure Takes (constraints : List Expr) (before after : ConstraintSet) : Prop where
  inherits : ∀ property, Expr.Logical property →
    (∀ entry ∈ before.entries, property entry) →
      (∀ constraint ∈ constraints, property constraint) →
        ∀ entry ∈ after.entries, property entry
  holds_iff : ∀ assignment, (∀ constraint ∈ constraints, constraint.Condition assignment) →
    (after.Holds assignment ↔
      before.Holds assignment ∧ ∀ constraint ∈ constraints, constraint.Holds assignment)

theorem Takes.refl
    (set : ConstraintSet) :
    Takes [] set set where
  inherits := fun _ _ ofSet _ => ofSet
  holds_iff := by simp

/-- What is added in two goes is added. -/
theorem Takes.trans
    {firsts seconds : List Expr}
    {before middle after : ConstraintSet}
    (takes : Takes firsts before middle)
    (takesToo : Takes seconds middle after) :
    Takes (firsts ++ seconds) before after := by
  constructor
  · intro property logical ofSet ofAll
    rw [List.forall_mem_append] at ofAll
    exact takesToo.inherits property logical
      (takes.inherits property logical ofSet ofAll.1) ofAll.2
  · intro assignment conditions
    rw [List.forall_mem_append] at conditions
    rw [takesToo.holds_iff assignment conditions.2, takes.holds_iff assignment conditions.1,
      List.forall_mem_append, and_assoc]

/--
Adding a constraint gives the set its conjuncts, which inherit its logical properties and hold
if it does.
-/
theorem takes_add
    {histories : List Updates}
    {table : Table}
    {set later : ConstraintSet}
    {constraint : Expr}
    (supports : table.Supports histories)
    (registered : set.Registered histories table)
    (registeredToo : constraint.Registered histories table)
    (ran : add constraint set = .ok () later) :
    Takes [constraint] set later := by
  have gains := ((add_moves constraint False.elim set).of_ok ran).1
  constructor
  · intro property logical ofSet ofConstraint entry member
    rw [List.forall_mem_singleton] at ofConstraint
    rcases gains.new entry member with old | ⟨new, _⟩
    · exact ofSet entry old
    · exact logical.of_mem_conjuncts ofConstraint new
  · intro assignment condition
    rw [List.forall_mem_singleton] at condition ⊢
    exact holds_add supports registered registeredToo condition ran

end ConstraintSet

end Diverge
