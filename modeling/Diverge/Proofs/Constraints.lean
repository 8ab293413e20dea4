import Diverge.Constraints
import Diverge.Proofs.Expr.Conditions

/-!
# The meaning of a constraint set

A constraint set holds under an assignment if all its entries do.  Adding a
condition adds its conjuncts, drops those that are true and keeps no entry twice;
the set then holds exactly if it held before and the condition does
(`ConstraintSet.holds_add`).  What is added is flat: no constant, and no conjunction
that could be taken apart.
-/

namespace Diverge

open Stateful

/-! ## Conjuncts -/

section

variable {assignment : Assignment}

/-- The operands of a conjunction of one bit are conditions, and decide it. -/
theorem Expr.Condition.of_and
    {tag : Tag}
    {left right : Expr}
    (condition : (Expr.binary tag .and left right).Condition assignment) :
    left.Condition assignment ∧ right.Condition assignment := by
  have inLeft : left ∈ (Expr.binary tag .and left right).kids := by simp [Expr.kids]
  have inRight : right ∈ (Expr.binary tag .and left right).kids := by simp [Expr.kids]
  have width : tag.width = left.width := condition.sized.self.measured
  have matched : left.width = right.width := condition.sized.self.matched
  have isBit : tag.width = 1 := condition.width_eq
  obtain ⟨outcome, evaluated⟩ := condition.evaluates
  rw [Expr.evaluate_binary] at evaluated
  obtain ⟨first, ranLeft, later⟩ := except_bind_eq_ok.1 evaluated
  obtain ⟨second, ranRight, _⟩ := except_bind_eq_ok.1 later
  constructor
  · exact ⟨condition.sized.kid inLeft, width.symm.trans isBit, first, ranLeft⟩
  · exact ⟨condition.sized.kid inRight, matched.symm.trans (width.symm.trans isBit),
      second, ranRight⟩

/-- A conjunction of conditions holds if both of them do. -/
theorem Expr.Condition.holds_and
    {tag : Tag}
    {left right : Expr}
    (condition : (Expr.binary tag .and left right).Condition assignment) :
    (Expr.binary tag .and left right).Holds assignment ↔
      left.Holds assignment ∧ right.Holds assignment := by
  obtain ⟨conditionLeft, conditionRight⟩ := condition.of_and
  obtain ⟨first, decidesLeft⟩ := conditionLeft.decides
  obtain ⟨second, decidesRight⟩ := conditionRight.decides
  have isBit : tag.width = 1 := condition.width_eq
  have decides := Expr.decides_binary (.inl rfl) isBit conditionLeft.width_eq
    decidesLeft decidesRight
  rw [decides.holds_iff, decidesLeft.holds_iff, decidesRight.holds_iff]
  exact Bool.and_eq_true_iff

/-- An expression is its only conjunct, or a conjunction that is taken apart. -/
theorem Expr.conjuncts_cases
    {expression : Expr}
    (measured : expression.Measured) :
    expression.conjuncts = [expression] ∧
        (expression.kind? = some (.binary .and) → expression.multi = true) ∨
      ∃ tag left right, expression = .binary tag .and left right ∧ tag.multi = false ∧
        expression.conjuncts = left.conjuncts ++ right.conjuncts := by
  cases expression with
  | loose tag kind value kids => exact measured.elim
  | binary tag operator left right =>
      cases operator with
      | and =>
          cases multi : tag.multi with
          | true => exact .inl ⟨by simp [Expr.conjuncts, multi], fun _ => multi⟩
          | false => exact .inr ⟨tag, left, right, rfl, multi, by simp [Expr.conjuncts, multi]⟩
      | _ => exact .inl ⟨rfl, fun isAnd => nomatch isAnd⟩
  | _ => exact .inl ⟨rfl, fun isAnd => nomatch isAnd⟩

/-- What is so of an expression and inherited by operands is so of its conjuncts. -/
theorem Expr.conjuncts_induction
    {motive : Expr → Prop}
    (measured : ∀ expression, motive expression → expression.Measured)
    (operands : ∀ tag left right, motive (.binary tag .and left right) →
      motive left ∧ motive right) :
    (expression : Expr) → motive expression →
      ∀ leaf ∈ expression.conjuncts, motive leaf := by
  intro expression holds leaf member
  rcases Expr.conjuncts_cases (measured expression holds) with
    ⟨single, _⟩ | ⟨tag, left, right, rfl, _, both⟩
  · rw [single] at member
    exact List.mem_singleton.1 member ▸ holds
  · rw [both] at member
    obtain ⟨ofLeft, ofRight⟩ := operands tag left right holds
    rcases List.mem_append.1 member with inLeft | inRight
    · exact Expr.conjuncts_induction measured operands left ofLeft leaf inLeft
    · exact Expr.conjuncts_induction measured operands right ofRight leaf inRight
termination_by expression => sizeOf expression

theorem Expr.Throughout.of_mem_conjuncts
    {condition : Expr → Prop}
    {expression leaf : Expr}
    (measured : ∀ node, condition node → node.Measured)
    (holds : expression.Throughout condition)
    (member : leaf ∈ expression.conjuncts) :
    leaf.Throughout condition := by
  refine Expr.conjuncts_induction (fun _ all => measured _ all.self) ?_
    expression holds leaf member
  intro tag left right all
  rw [Expr.throughout_binary] at all
  exact all.2

/-- A condition holds if its conjuncts do. -/
theorem Expr.Condition.holds_conjuncts
    {expression : Expr}
    (condition : expression.Condition assignment) :
    (∀ leaf ∈ expression.conjuncts, leaf.Holds assignment) ↔
      expression.Holds assignment := by
  rcases Expr.conjuncts_cases condition.sized.self.measured with
    ⟨single, _⟩ | ⟨tag, left, right, rfl, _, both⟩
  · rw [single]
    simp
  · obtain ⟨conditionLeft, conditionRight⟩ := condition.of_and
    rw [both, List.forall_mem_append, conditionLeft.holds_conjuncts,
      conditionRight.holds_conjuncts, condition.holds_and]
termination_by sizeOf expression

/-- A conjunct has no conjuncts but itself. -/
theorem Expr.conjuncts_of_mem_conjuncts
    {expression leaf : Expr}
    (proper : expression.Throughout Expr.Proper)
    (member : leaf ∈ expression.conjuncts) :
    leaf.conjuncts = [leaf] := by
  rcases Expr.conjuncts_cases proper.self.measured with
    ⟨single, _⟩ | ⟨tag, left, right, rfl, _, both⟩
  · have same := member
    rw [single, List.mem_singleton] at same
    rw [same]
    exact single
  · rw [Expr.throughout_binary] at proper
    rw [both] at member
    rcases List.mem_append.1 member with inLeft | inRight
    · exact Expr.conjuncts_of_mem_conjuncts proper.2.1 inLeft
    · exact Expr.conjuncts_of_mem_conjuncts proper.2.2 inRight
termination_by sizeOf expression

theorem Expr.holds_of_isTrue
    {expression : Expr}
    (measured : expression.Measured)
    (isTrue : expression.isTrue = true) :
    expression.Holds assignment := by
  cases expression with
  | const tag value =>
      have both : tag.width = 1 ∧ value = 1 := by
        simpa [Expr.isTrue, Expr.width, Expr.tag, Expr.constant?, Expr.isConstant,
          Expr.kind?, Expr.value?] using isTrue
      exact ⟨value, rfl, by rw [both.2]; exact one_ne_zero⟩
  | loose tag kind value kids => exact measured.elim
  | _ => simp [Expr.isTrue, Expr.constant?, Expr.isConstant, Expr.kind?] at isTrue

end

/-- A constraint that can be added: one bit, of which no conjunct is false. -/
def Expr.IsPossible (constraint : Expr) : Prop :=
  constraint.width = 1 ∧ ∀ conjunct ∈ constraint.conjuncts, conjunct.isFalse = false

/-! ## Adding -/

namespace ConstraintSet

/-- The set holds under an assignment if all its entries do. -/
def Holds (assignment : Assignment) (set : ConstraintSet) : Prop :=
  ∀ entry ∈ set.entries, entry.Holds assignment

/-- All entries are kept, and what is new is from a list and no constant. -/
structure Gains (list : List Expr) (before after : ConstraintSet) : Prop where
  keeps : ∀ entry ∈ before.entries, entry ∈ after.entries
  new : ∀ entry ∈ after.entries, entry ∈ before.entries ∨
    (entry ∈ list ∧ entry.isTrue = false ∧ entry.isFalse = false)

/-- What is in a set after a push was there before or is what was pushed. -/
theorem mem_push
    {set : ConstraintSet}
    {expression entry : Expr} :
    entry ∈ (set.push expression).entries ↔
      entry ∈ set.entries ∨ (set.contains expression = false ∧ entry = expression) := by
  unfold push
  split
  · rename_i there
    simp [there]
  · rename_i absent
    simp [absent]

/-- After a push the set has what was pushed, or something that is the same. -/
theorem contains_push
    (set : ConstraintSet)
    (expression : Expr) :
    ∃ entry ∈ (set.push expression).entries, entry.same expression = true := by
  by_cases there : set.contains expression = true
  · obtain ⟨entry, member, same⟩ := List.any_eq_true.1 there
    exact ⟨entry, mem_push.2 (Or.inl member), same⟩
  · refine ⟨expression, mem_push.2 (Or.inr ⟨by simpa using there, rfl⟩), ?_⟩
    simp [Expr.same]

theorem Gains.refl
    (list : List Expr)
    (set : ConstraintSet) :
    Gains list set set :=
  ⟨fun _ member => member, fun _ member => Or.inl member⟩

/-- Gains add up. -/
theorem Gains.trans
    {list : List Expr}
    ⦃first second third : ConstraintSet⦄
    (before : Gains list first second)
    (after : Gains list second third) :
    Gains list first third := by
  constructor
  · intro entry member
    exact after.keeps entry (before.keeps entry member)
  · intro entry member
    rcases after.new entry member with old | new
    · exact before.new entry old
    · exact Or.inr new

/-- What adding conjuncts one after another does, also if it ends with a fault. -/
theorem addConjuncts_moves
    {whole : List Expr}
    {safe : Prop}
    (list : List Expr)
    (included : ∀ conjunct ∈ list, conjunct ∈ whole)
    (possible : safe → ∀ conjunct ∈ list, conjunct.isFalse = false)
    (set : ConstraintSet) :
    Moves (Gains whole) (addConjuncts list) set
      (fun _ later => ∀ conjunct ∈ list, conjunct.isTrue = true ∨
        ∃ entry ∈ later.entries, entry.same conjunct = true) safe := by
  induction list generalizing set with
  | nil => exact Moves.pure (Gains.refl whole set) (by simp)
  | cons conjunct rest inductionHypothesis =>
      have ofRest := inductionHypothesis
        (fun other member => included other (List.mem_cons_of_mem _ member))
        (fun isSafe other member => possible isSafe other (List.mem_cons_of_mem _ member))
      unfold addConjuncts
      split
      · rename_i isTrue
        refine (ofRest set).mono fun _ later _ found => ?_
        rw [List.forall_mem_cons]
        exact ⟨Or.inl isTrue, found⟩
      · split
        · rename_i _ isFalse
          refine Moves.throw (Gains.refl whole set) fun isSafe => ?_
          rw [possible isSafe conjunct List.mem_cons_self] at isFalse
          cases isFalse
        · rename_i notTrue notFalse
          have pushed : Gains whole set (set.push conjunct) := by
            constructor
            · intro entry member
              exact mem_push.2 (Or.inl member)
            · intro entry member
              rcases mem_push.1 member with old | ⟨_, rfl⟩
              · exact Or.inl old
              · exact Or.inr ⟨included entry List.mem_cons_self,
                  by simpa using notTrue, by simpa using notFalse⟩
          refine Moves.bind Gains.trans (Moves.modify pushed ?_)
          refine (ofRest _).mono fun _ later gains found => ?_
          rw [List.forall_mem_cons]
          refine ⟨Or.inr ?_, found⟩
          obtain ⟨entry, member, same⟩ := contains_push set conjunct
          exact ⟨entry, gains.keeps entry member, same⟩

/-- What adding a constraint does, also if it ends with a fault. -/
theorem add_moves
    {safe : Prop}
    (constraint : Expr)
    (possible : safe → constraint.IsPossible)
    (set : ConstraintSet) :
    Moves (Gains constraint.conjuncts) (add constraint) set
      (fun _ later => ∀ conjunct ∈ constraint.conjuncts, conjunct.isTrue = true ∨
        ∃ entry ∈ later.entries, entry.same conjunct = true) safe := by
  have stays := Gains.refl constraint.conjuncts set
  unfold add
  split
  · rw [Expr.conjunctsBefore_eq, List.append_nil]
    exact addConjuncts_moves _ (fun _ member => member)
      (fun isSafe => (possible isSafe).2) set
  · rename_i wide
    have fails : ¬ safe := fun isSafe => wide (possible isSafe).1
    refine Moves.bind Gains.trans (Moves.ofExcept_of_total stays
      (fun isSafe => (fails isSafe).elim) fun text _ => ?_)
    exact Moves.throw stays fails

section

variable
  {assignment : Assignment}
  {histories : List Updates}
  {table : Table}
  {set later : ConstraintSet}
  {constraint : Expr}

/-- All entries are registered. -/
def Registered (histories : List Updates) (table : Table) (set : ConstraintSet) : Prop :=
  ∀ entry ∈ set.entries, entry.Registered histories table

/-- All entries are conditions. -/
def AreConditions (assignment : Assignment) (set : ConstraintSet) : Prop :=
  ∀ entry ∈ set.entries, entry.Condition assignment

/-- No entry is a constant truth value or can be taken apart. -/
def Flat (set : ConstraintSet) : Prop :=
  ∀ entry ∈ set.entries,
    entry.conjuncts = [entry] ∧ entry.isTrue = false ∧ entry.isFalse = false

/-- A set of constraints without open conjunctions stays one, since only conjuncts are added. -/
theorem Gains.flat
    (gains : Gains constraint.conjuncts set later)
    (flat : set.Flat)
    (proper : constraint.Throughout Expr.Proper) :
    later.Flat := by
  intro entry member
  rcases gains.new entry member with old | ⟨new, notTrue, notFalse⟩
  · exact flat entry old
  · exact ⟨Expr.conjuncts_of_mem_conjuncts proper new, notTrue, notFalse⟩

/-- What is added comes from a registered constraint, and so is registered itself. -/
theorem Gains.registered
    (gains : Gains constraint.conjuncts set later)
    (registered : set.Registered histories table)
    (registeredToo : constraint.Registered histories table) :
    later.Registered histories table := by
  intro entry member
  rcases gains.new entry member with old | ⟨new, _⟩
  · exact registered entry old
  · exact Expr.Throughout.of_mem_conjuncts (fun _ known => known.proper.measured)
      registeredToo new

/-- After adding, the set holds if it held before and the constraint does. -/
theorem holds_add
    (supports : table.Supports histories)
    (registered : set.Registered histories table)
    (registeredToo : constraint.Registered histories table)
    (condition : constraint.Condition assignment)
    (ran : add constraint set = .ok () later) :
    later.Holds assignment ↔ set.Holds assignment ∧ constraint.Holds assignment := by
  obtain ⟨gains, found⟩ := (add_moves constraint False.elim set).of_ok ran
  have registeredLater := gains.registered registered registeredToo
  rw [← condition.holds_conjuncts]
  constructor
  · intro holds
    constructor
    · intro entry member
      exact holds entry (gains.keeps entry member)
    · intro leaf member
      have registeredLeaf : leaf.Registered histories table :=
        Expr.Throughout.of_mem_conjuncts (fun _ known => known.proper.measured)
          registeredToo member
      rcases found leaf member with isTrue | ⟨entry, inside, same⟩
      · exact Expr.holds_of_isTrue registeredLeaf.self.proper.measured isTrue
      · rw [← Expr.Registered.eq_of_same supports (registeredLater entry inside)
          registeredLeaf same]
        exact holds entry inside
  · rintro ⟨before, leaves⟩ entry member
    rcases gains.new entry member with old | ⟨new, _⟩
    · exact before entry old
    · exact leaves entry new

end

end ConstraintSet

end Diverge
