import Diverge.Proofs.Expr.Values
import Diverge.Proofs.Expr.Workshop

/-!
# Conditions

A *condition* under an assignment is a well-typed expression of one bit that has a
value there; it is true or false.  The constructors of conjunctions and
disjunctions simplify: they compute constants, drop an operand that another one
decides, and merge two operands that are the same.  Whatever they do, the result is
a condition again, and it holds exactly if both operands do, or one of them.

A choice that a condition guards has the value of the branch that the condition
picks, whichever way the choice was simplified.
-/

namespace Diverge

open Stateful

/-- The expression is true under an assignment. -/
def Expr.Holds (assignment : Assignment) (expression : Expr) : Prop :=
  ∃ value, expression.evaluate assignment = .ok (some value) ∧ value ≠ 0

/-- The expression is a bit that stands for a truth value. -/
def Expr.Decides (assignment : Assignment) (expression : Expr) (truth : Bool) : Prop :=
  expression.evaluate assignment = .ok (some (Word.ofBool truth))

/-- A well-typed expression of one bit that has a value. -/
structure Expr.Condition (assignment : Assignment) (expression : Expr) : Prop where
  sized : expression.Throughout (Expr.Sized assignment)
  width_eq : expression.width = 1
  evaluates : ∃ outcome, expression.evaluate assignment = .ok outcome

section

variable {assignment : Assignment}

/-- A condition holds if the bit that it decides is set. -/
theorem Expr.Decides.holds_iff
    {expression : Expr}
    {truth : Bool}
    (decides : expression.Decides assignment truth) :
    expression.Holds assignment ↔ truth = true := by
  constructor
  · rintro ⟨value, evaluated, nonzero⟩
    rw [decides] at evaluated
    cases truth with
    | true => rfl
    | false =>
        cases evaluated
        exact (nonzero rfl).elim
  · rintro rfl
    exact ⟨1, decides, one_ne_zero⟩

/-- A condition is true or false. -/
theorem Expr.Condition.decides
    {expression : Expr}
    (condition : expression.Condition assignment) :
    ∃ truth, expression.Decides assignment truth := by
  obtain ⟨outcome, evaluated⟩ := condition.evaluates
  obtain ⟨word, rfl, nonneg, bound⟩ :=
    expression.isWord_evaluate condition.sized evaluated
  rw [condition.width_eq] at bound
  have bit : word = 0 ∨ word = 1 := by
    simp at bound
    omega
  rcases bit with rfl | rfl
  · exact ⟨false, evaluated⟩
  · exact ⟨true, evaluated⟩

/-- A constant of one bit. -/
theorem Expr.condition_const
    {tag : Tag}
    {truth : Bool}
    (width : tag.width = 1) :
    (Expr.const tag (Word.ofBool truth)).Condition assignment ∧
      (Expr.const tag (Word.ofBool truth)).Decides assignment truth := by
  have measured : (Expr.const tag (Word.ofBool truth)).Measured := by
    show 0 ≤ tag.width ∧ 0 ≤ Word.ofBool truth ∧ Word.ofBool truth < 2 ^ tag.width.toNat
    rw [width]
    cases truth <;> decide
  refine ⟨⟨?_, width, _, rfl⟩, rfl⟩
  rw [Expr.throughout_const]
  exact {
    measured
    matched := trivial
    fits := by simp [Expr.updates?]
    width_pos := by
      show 0 < tag.width
      rw [width]
      exact one_pos }

/-- A condition that is a constant node. -/
theorem Expr.Condition.eq_const
    {expression : Expr}
    {truth : Bool}
    (condition : expression.Condition assignment)
    (decides : expression.Decides assignment truth)
    (constant : expression.isConstant = true) :
    ∃ tag, expression = .const tag (Word.ofBool truth) ∧ tag.width = 1 := by
  obtain ⟨tag, value, rfl⟩ :=
    Expr.eq_const_of_isConstant condition.sized.self.measured constant
  cases decides
  exact ⟨tag, rfl, condition.width_eq⟩

end

theorem Expr.isConstant_of_constant?
    {expression : Expr}
    {value : Option Int}
    (constant : expression.constant? = some value) :
    expression.isConstant = true := by
  unfold Expr.constant? at constant
  split at constant
  · assumption
  · cases constant

/-! ## Conjunction and disjunction -/

/-- What the two logical operators compute. -/
def BinaryOp.combine (operator : BinaryOp) (left right : Bool) : Bool :=
  if operator = .and then left && right else left || right

/-- Conjunction or disjunction. -/
def BinaryOp.IsLogical (operator : BinaryOp) : Prop :=
  operator = .and ∨ operator = .or

/-- On single bits the integers of a logical operator compute its truth table. -/
theorem BinaryOp.apply_ofBool
    {operator : BinaryOp}
    (logical : operator.IsLogical)
    (left right : Bool) :
    operator.apply (Word.ofBool left) (Word.ofBool right) 1 =
      .ok (some (Word.ofBool (operator.combine left right))) := by
  rcases logical with rfl | rfl <;> cases left <;> cases right <;> rfl

theorem BinaryOp.IsLogical.resultWidth
    {operator : BinaryOp}
    (logical : operator.IsLogical)
    (left : Expr) :
    Build.resultWidth operator left = left.width := by
  rcases logical with rfl | rfl <;> rfl

theorem Word.truncate_ofBool
    (truth : Bool) :
    Word.truncate (Word.ofBool truth) 1 = .ok (Word.ofBool truth) := by
  cases truth <;> rfl

section

variable
  {assignment : Assignment}
  {operator : BinaryOp}
  {left right : Expr}
  {first second : Bool}
  {table : Table}

/-- A logical node decides what its operands decide together. -/
theorem Expr.decides_binary
    (logical : operator.IsLogical)
    {tag : Tag}
    (tagWidth : tag.width = 1)
    (width : left.width = 1)
    (decidesLeft : left.Decides assignment first)
    (decidesRight : right.Decides assignment second) :
    (Expr.binary tag operator left right).Decides assignment
      (operator.combine first second) := by
  unfold Expr.Decides at decidesLeft decidesRight ⊢
  rw [Expr.evaluate_binary, decidesLeft, decidesRight, width]
  have applied := operator.apply_ofBool logical first second
  have cut := Word.truncate_ofBool (operator.combine first second)
  simp only [bind, Except.bind, BinaryOp.applyPresent_some, applied, tagWidth, cut]
  rfl

/-- A logical node on conditions is a condition. -/
theorem Expr.condition_binary
    (logical : operator.IsLogical)
    {tag : Tag}
    (tagWidth : tag.width = 1)
    (conditionLeft : left.Condition assignment)
    (conditionRight : right.Condition assignment) :
    (Expr.binary tag operator left right).Condition assignment := by
  obtain ⟨first, decidesLeft⟩ := conditionLeft.decides
  obtain ⟨second, decidesRight⟩ := conditionRight.decides
  refine ⟨?_, tagWidth, _, Expr.decides_binary logical tagWidth conditionLeft.width_eq
    decidesLeft decidesRight⟩
  rw [Expr.throughout_binary]
  refine ⟨?_, conditionLeft.sized, conditionRight.sized⟩
  exact {
    measured := by
      show tag.width = Build.resultWidth operator left
      rw [logical.resultWidth, tagWidth, conditionLeft.width_eq]
    matched := by
      show left.width = right.width
      rw [conditionLeft.width_eq, conditionRight.width_eq]
    fits := by simp [Expr.updates?]
    width_pos := by
      show 0 < tag.width
      rw [tagWidth]
      exact one_pos }

/-- A constant operand decides exactly if it absorbs. -/
theorem Build.absorbs_const
    (logical : operator.IsLogical)
    {tag : Tag}
    (width : tag.width = 1) :
    Build.absorbs operator (.const tag (Word.ofBool first)) =
      (if operator = .and then !first else first) := by
  rcases logical with rfl | rfl <;> cases first <;>
    simp [Build.absorbs, Expr.isFalse, Expr.isTrue, Expr.width, Expr.tag, Expr.constant?,
      Expr.isConstant, Expr.kind?, Expr.value?, width, Word.ofBool]

/-- A condition with its truth value. -/
def Expr.Judged (assignment : Assignment) (truth : Bool) (expression : Expr) : Prop :=
  expression.Condition assignment ∧ expression.Decides assignment truth

theorem Build.judged_constant
    (truth : Bool) :
    Yields (Build.constant (Word.ofBool truth) 1) table fun result _ =>
      result.Judged assignment truth := by
  intro result later ran
  obtain ⟨word, middle, cut, node⟩ := bind_eq_ok.1 ran
  obtain ⟨truncated, rfl⟩ := ofExcept_eq_ok.1 cut
  rw [Word.truncate_ofBool] at truncated
  cases truncated
  obtain ⟨tag, rfl, _, width, _⟩ := Build.constNode_spec node
  exact Expr.condition_const width

/-- What one operand decides is one of the operands. -/
theorem Build.judged_simplifyLogic
    (logical : operator.IsLogical)
    (coherent : left.same right = true → left = right)
    (judgedLeft : left.Judged assignment first)
    (judgedRight : right.Judged assignment second)
    {simpler : Expr}
    (simplified : Build.simplifyLogic operator left right = some simpler) :
    simpler.Judged assignment (operator.combine first second) := by
  unfold Build.simplifyLogic at simplified
  split at simplified
  · rename_i constant
    obtain ⟨tag, rfl, width⟩ := judgedLeft.1.eq_const judgedLeft.2 constant
    rw [Build.absorbs_const logical width] at simplified
    cases simplified
    rcases logical with rfl | rfl
    · cases first with
      | true => exact judgedRight
      | false => exact judgedLeft
    · cases first with
      | true => exact judgedLeft
      | false => exact judgedRight
  · split at simplified
    · rename_i constant
      obtain ⟨tag, rfl, width⟩ := judgedRight.1.eq_const judgedRight.2 constant
      rw [Build.absorbs_const logical width] at simplified
      cases simplified
      rcases logical with rfl | rfl
      · cases second with
        | true =>
            rw [show BinaryOp.and.combine first true = first by cases first <;> rfl]
            exact judgedLeft
        | false =>
            rw [show BinaryOp.and.combine first false = false by cases first <;> rfl]
            exact judgedRight
      · cases second with
        | true =>
            rw [show BinaryOp.or.combine first true = true by cases first <;> rfl]
            exact judgedRight
        | false =>
            rw [show BinaryOp.or.combine first false = first by cases first <;> rfl]
            exact judgedLeft
    · split at simplified
      · rename_i same
        cases simplified
        have equal := coherent same
        subst equal
        have agree : Word.ofBool first = Word.ofBool second := by
          have both := judgedLeft.2.symm.trans judgedRight.2
          simpa using both
        have truths : second = first := by
          cases first <;> cases second <;> simp_all [Word.ofBool]
        subst truths
        rw [show operator.combine second second = second by
          unfold BinaryOp.combine
          cases second <;> simp]
        exact judgedLeft
      · cases simplified

/-- Conjunction and disjunction of conditions. -/
theorem Build.judged_binary
    (logical : operator.IsLogical)
    (coherent : left.same right = true → left = right)
    (judgedLeft : left.Judged assignment first)
    (judgedRight : right.Judged assignment second) :
    Yields (Build.binary operator left right) table fun result _ =>
      result.Judged assignment (operator.combine first second) := by
  have width := judgedLeft.1.width_eq
  have node : Yields (Build.binaryNode operator left right false) table
      fun result _ => result.Judged assignment (operator.combine first second) := by
    intro result later ran
    obtain ⟨tag, rfl, _, tagWidth, _⟩ := Build.binaryNode_spec ran
    rw [logical.resultWidth, width] at tagWidth
    exact ⟨Expr.condition_binary logical tagWidth judgedLeft.1 judgedRight.1,
      Expr.decides_binary logical tagWidth width judgedLeft.2 judgedRight.2⟩
  have opened : Yields (Build.binaryOpen operator left right) table
      fun result _ => result.Judged assignment (operator.combine first second) := by
    unfold Build.binaryOpen
    rw [if_pos ⟨logical, width⟩]
    split
    · exact Yields.pure
        (Build.judged_simplifyLogic logical coherent judgedLeft judgedRight ‹_›)
    · exact node
  unfold Build.binary
  simp only [Bool.false_eq_true, if_false]
  split
  · rename_i constLeft constRight
    obtain ⟨leftTag, rfl, leftWidth⟩ :=
      judgedLeft.1.eq_const judgedLeft.2 (Expr.isConstant_of_constant? constLeft)
    obtain ⟨rightTag, rfl, _⟩ :=
      judgedRight.1.eq_const judgedRight.2 (Expr.isConstant_of_constant? constRight)
    cases constLeft
    cases constRight
    refine Yields.bind (Yields.ofExcept fun applied computed => ?_)
    rw [width, Expr.value?, Expr.value?, BinaryOp.applyPresent_some,
      operator.apply_ofBool logical] at computed
    cases computed
    rw [logical.resultWidth, width]
    exact Build.judged_constant (operator.combine first second)
  · exact opened

/-- Every condition has a truth under an assignment, and holds if that is true. -/
theorem Expr.Condition.judged
    {expression : Expr}
    (condition : expression.Condition assignment) :
    ∃ truth, expression.Judged assignment truth ∧
      (expression.Holds assignment ↔ truth = true) := by
  obtain ⟨truth, decides⟩ := condition.decides
  exact ⟨truth, ⟨condition, decides⟩, decides.holds_iff⟩

/--
The conjunction of two conditions, however it is simplified, is a condition that holds if both
do.
-/
theorem Build.condition_and
    (coherent : left.same right = true → left = right)
    (conditionLeft : left.Condition assignment)
    (conditionRight : right.Condition assignment) :
    Yields (Build.binary .and left right) table fun result _ =>
      result.Condition assignment ∧
        (result.Holds assignment ↔ left.Holds assignment ∧ right.Holds assignment) := by
  obtain ⟨first, judgedLeft, holdsLeft⟩ := conditionLeft.judged
  obtain ⟨second, judgedRight, holdsRight⟩ := conditionRight.judged
  intro result later ran
  have judged := Build.judged_binary (.inl rfl) coherent judgedLeft judgedRight ran
  refine ⟨judged.1, ?_⟩
  rw [judged.2.holds_iff, holdsLeft, holdsRight]
  exact Bool.and_eq_true_iff

/-- The same for a disjunction. -/
theorem Build.condition_or
    (coherent : left.same right = true → left = right)
    (conditionLeft : left.Condition assignment)
    (conditionRight : right.Condition assignment) :
    Yields (Build.binary .or left right) table fun result _ =>
      result.Condition assignment ∧
        (result.Holds assignment ↔ left.Holds assignment ∨ right.Holds assignment) := by
  obtain ⟨first, judgedLeft, holdsLeft⟩ := conditionLeft.judged
  obtain ⟨second, judgedRight, holdsRight⟩ := conditionRight.judged
  intro result later ran
  have judged := Build.judged_binary (.inr rfl) coherent judgedLeft judgedRight ran
  refine ⟨judged.1, ?_⟩
  rw [judged.2.holds_iff, holdsLeft, holdsRight]
  exact Bool.or_eq_true_iff

/-! ## Conjunctions of several conditions -/

/-- Combining a list from the left only adds to the table. -/
theorem Build.stable_foldlM
    {combine : Expr → Expr → Build Expr}
    (stable : ∀ left right, Build.Stable (combine left right))
    (expressions : List Expr)
    (start : Expr) :
    Build.Stable (expressions.foldlM combine start) := by
  induction expressions generalizing start with
  | nil => exact Build.Stable.pure start
  | cons expression rest inductionHypothesis =>
      rw [List.foldlM_cons]
      exact (stable start expression).bind inductionHypothesis

theorem Build.stable_conjunction
    (expressions : List Expr) :
    Build.Stable (Build.conjunction expressions) :=
  (Build.stable_constant _ _).bind fun _ =>
    Build.stable_foldlM (fun left right => Build.stable_binary .and left right false)
      expressions _

variable {histories : List Updates}

/-- A conjunction of several expressions, on top of one. -/
theorem Build.condition_foldlM
    (supports : table.Supports histories)
    {start : Expr}
    (registeredStart : start.Registered histories table)
    (expressions : List Expr)
    (registered : ∀ expression ∈ expressions, expression.Registered histories table) :
    Yields (expressions.foldlM (fun left right => Build.binary .and left right) start) table
      fun result later =>
        result.Registered histories later ∧
          ∀ assignment, start.Condition assignment →
            (∀ expression ∈ expressions, expression.Condition assignment) →
              result.Condition assignment ∧
                (result.Holds assignment ↔
                  start.Holds assignment ∧
                    ∀ expression ∈ expressions, expression.Holds assignment) := by
  induction expressions generalizing start table with
  | nil =>
      refine Yields.pure ⟨registeredStart, ?_⟩
      intro assignment conditionStart _
      exact ⟨conditionStart, by simp⟩
  | cons expression rest inductionHypothesis =>
      rw [List.foldlM_cons]
      have registeredFirst := registered expression List.mem_cons_self
      refine Yields.bind fun middle between ran result later ranRest => ?_
      have grows := (Build.stable_binary .and start expression false).grows_of_ok ran
      have registeredMiddle :=
        Build.registered_binary registeredStart registeredFirst ran
      obtain ⟨registeredLast, decided⟩ :=
        inductionHypothesis (supports.grow grows) registeredMiddle
          (fun other member =>
            (registered other (List.mem_cons_of_mem _ member)).grow grows) ranRest
      refine ⟨registeredLast, ?_⟩
      intro assignment conditionStart conditions
      obtain ⟨conditionMiddle, holdsMiddle⟩ :=
        Build.condition_and (Expr.Registered.eq_of_same supports registeredStart registeredFirst)
          conditionStart (conditions expression List.mem_cons_self) ran
      obtain ⟨conditionLast, holdsLast⟩ := decided assignment conditionMiddle
        fun other member => conditions other (List.mem_cons_of_mem _ member)
      refine ⟨conditionLast, ?_⟩
      rw [holdsLast, holdsMiddle, List.forall_mem_cons, and_assoc]

/-- The conjunction of several conditions holds if all of them do. -/
theorem Build.condition_conjunction
    (supports : table.Supports histories)
    (expressions : List Expr)
    (registered : ∀ expression ∈ expressions, expression.Registered histories table) :
    Yields (Build.conjunction expressions) table fun result later =>
      result.Registered histories later ∧
        ∀ assignment, (∀ expression ∈ expressions, expression.Condition assignment) →
          result.Condition assignment ∧
            (result.Holds assignment ↔
              ∀ expression ∈ expressions, expression.Holds assignment) := by
  refine Yields.bind fun start between ran result later ranRest => ?_
  have grows := (Build.stable_constant _ _).grows_of_ok ran
  obtain ⟨registeredLast, decided⟩ :=
    Build.condition_foldlM (supports.grow grows) (Build.registered_constant ran)
      expressions (fun other member => (registered other member).grow grows) ranRest
  refine ⟨registeredLast, ?_⟩
  intro assignment conditions
  have judged : start.Judged assignment true := Build.judged_constant true ran
  obtain ⟨conditionLast, holdsLast⟩ := decided assignment judged.1 conditions
  refine ⟨conditionLast, ?_⟩
  rw [holdsLast, judged.2.holds_iff]
  exact and_iff_right rfl

/-! ## Choices -/

/-- A select is evaluated like the branch that its guard decides for. -/
theorem Build.evaluate_selectNode
    {patches : Option (Int × Int)}
    {guard onTrue onFalse : Expr}
    {multi truth : Bool}
    (judged : guard.Judged assignment truth) :
    Yields (Build.selectNode patches guard onTrue onFalse multi) table fun result _ =>
      result.evaluate assignment =
        (if truth then onTrue else onFalse).evaluate assignment := by
  intro result later ran
  obtain ⟨tag, rfl, _⟩ := Build.selectNode_spec ran
  have decides : guard.evaluate assignment = .ok (some (Word.ofBool truth)) := judged.2
  rw [Expr.evaluate_select, decides]
  cases truth with
  | true => rfl
  | false => rfl

/-- A choice that a condition guards has the value of the branch it picks. -/
theorem Build.evaluate_select
    {guard onTrue onFalse : Expr}
    {truth : Bool}
    (judged : guard.Judged assignment truth)
    (coherent : onTrue.same onFalse = true → onTrue = onFalse) :
    Yields (Build.select guard onTrue onFalse) table fun result _ =>
      result.evaluate assignment =
        (if truth then onTrue else onFalse).evaluate assignment := by
  have picks : Word.isTrue (some (Word.ofBool truth)) = truth := by
    cases truth <;> rfl
  unfold Build.select
  simp only [Bool.false_eq_true, if_false]
  split
  · rename_i constant
    obtain ⟨tag, rfl, _⟩ :=
      judged.1.eq_const judged.2 (Expr.isConstant_of_constant? constant)
    cases constant
    refine Yields.pure ?_
    rw [Expr.value?, picks]
  · split
    · rename_i same
      rw [← coherent same, ite_self]
      exact Yields.pure rfl
    · exact Build.evaluate_selectNode judged

end

end Diverge
