import Diverge.Expr.Render

/-!
# Constraint sets

A constraint set is the list of one-bit expressions known to hold on a path, in the order in
which they were added and each only once.  Adding a constraint adds its conjuncts: the leaves
reached by going through conjunctions that are not multi, from left to right.  The constant true
is dropped; the constant false is a fault, and what was added before it stays.
-/

namespace Diverge

/-- One-bit expressions that hold together, without repetition. -/
structure ConstraintSet where
  entries : List Expr := []
  deriving Inhabited

namespace ConstraintSet

/-- The set that holds always. -/
def empty : ConstraintSet := {}

/-- Whether an expression is one of the entries. -/
def contains (set : ConstraintSet) (expression : Expr) : Bool :=
  set.entries.any (·.same expression)

/-- Append an expression that is not yet there. -/
def push (set : ConstraintSet) (expression : Expr) : ConstraintSet :=
  if set.contains expression then set else { entries := set.entries ++ [expression] }

/-- The set of the given expressions. -/
def ofList (expressions : List Expr) : ConstraintSet :=
  expressions.foldl push empty

/-- Two sets with the same entries in the same order. -/
def same (left right : ConstraintSet) : Bool :=
  left.entries.map Expr.id == right.entries.map Expr.id

/-- The text of a set. -/
def render (set : ConstraintSet) : Except Fault String :=
  renderList set.entries

end ConstraintSet

mutual

/-- The leaves of an expression below conjunctions that are not multi, from left to right. -/
def Expr.conjuncts : Expr → List Expr
  | .binary tag .and left right =>
      if tag.multi then [.binary tag .and left right] else left.conjuncts ++ right.conjuncts
  | .loose tag kind value kids =>
      if kind = some (.binary .and) ∧ tag.multi = false then conjunctsEach kids
      else [.loose tag kind value kids]
  | expression => [expression]

/-- The leaves of several expressions. -/
def conjunctsEach : List Expr → List Expr
  | [] => []
  | expression :: rest => expression.conjuncts ++ conjunctsEach rest

end

mutual

/-- The leaves of an expression, put before a list in one pass. -/
def Expr.conjunctsBefore (list : List Expr) : Expr → List Expr
  | .binary tag .and left right =>
      if tag.multi then .binary tag .and left right :: list
      else left.conjunctsBefore (right.conjunctsBefore list)
  | .loose tag kind value kids =>
      if kind = some (.binary .and) ∧ tag.multi = false then conjunctsEachBefore list kids
      else .loose tag kind value kids :: list
  | expression => expression :: list

/-- The leaves of several expressions, put before a list in one pass. -/
def conjunctsEachBefore (list : List Expr) : List Expr → List Expr
  | [] => list
  | expression :: rest => expression.conjunctsBefore (conjunctsEachBefore list rest)

end

mutual

@[simp]
theorem Expr.conjunctsBefore_eq (expression : Expr) (list : List Expr) :
    expression.conjunctsBefore list = expression.conjuncts ++ list := by
  match expression with
  | .binary tag operator left right =>
      cases operator
      case and =>
        simp only [Expr.conjunctsBefore, Expr.conjuncts]
        split
        · rfl
        · rw [left.conjunctsBefore_eq, right.conjunctsBefore_eq, List.append_assoc]
      all_goals rfl
  | .loose tag kind value kids =>
      simp only [Expr.conjunctsBefore, Expr.conjuncts]
      split
      · exact conjunctsEachBefore_eq kids list
      · rfl
  | .const .. | .notOptimized .. | .read .. | .select .. | .concat .. | .extract .. | .zext ..
  | .sext .. | .not .. => rfl

theorem conjunctsEachBefore_eq (expressions list : List Expr) :
    conjunctsEachBefore list expressions = conjunctsEach expressions ++ list := by
  match expressions with
  | [] => rfl
  | expression :: rest =>
      simp only [conjunctsEachBefore, conjunctsEach]
      rw [expression.conjunctsBefore_eq, conjunctsEachBefore_eq rest, List.append_assoc]

end

namespace ConstraintSet

/-- Add conjuncts one after another. -/
def addConjuncts : List Expr → EStateM Fault ConstraintSet Unit
  | [] => pure ()
  | conjunct :: rest => do
      if conjunct.isTrue then addConjuncts rest
      else if conjunct.isFalse then throw .falseConstraint
      else
        modify (·.push conjunct)
        addConjuncts rest

/-- Add a constraint, which must be one bit wide. -/
def add (constraint : Expr) : EStateM Fault ConstraintSet Unit := do
  if constraint.width = 1 then addConjuncts (constraint.conjunctsBefore [])
  else
    let text ← ofExcept constraint.render
    throw (.notBoolean text)

end ConstraintSet

end Diverge
