/-!
# Buckets

Buckets are a binary tree whose nodes hold lists.  A path, told by the turns taken from the root,
leads to one node; what is put there is found there, and nowhere else.  Elements that are spread
over many paths are found without going through all of them.
-/

namespace Diverge

/-- A binary tree whose nodes hold lists. -/
inductive Buckets (α : Type) where
  | empty
  | node (here : List α) (left right : Buckets α)

namespace Buckets

variable {α : Type}

/-- What was put at a path, the latest first. -/
def get : Buckets α → List Bool → List α
  | .empty, _ => []
  | .node here _ _, [] => here
  | .node _ left right, turn :: path => if turn then right.get path else left.get path

/-- Put an element at a path. -/
def put (element : α) : Buckets α → List Bool → Buckets α
  | .empty, [] => .node [element] .empty .empty
  | .empty, turn :: path =>
      if turn then .node [] .empty (put element .empty path)
      else .node [] (put element .empty path) .empty
  | .node here left right, [] => .node (element :: here) left right
  | .node here left right, turn :: path =>
      if turn then .node here left (put element right path)
      else .node here (put element left path) right

@[simp]
theorem get_empty (path : List Bool) : (empty : Buckets α).get path = [] := by
  cases path <;> rfl

/-- An element is found where it was put. -/
@[simp]
theorem get_put_self (element : α) (buckets : Buckets α) (path : List Bool) :
    (buckets.put element path).get path = element :: buckets.get path := by
  induction path generalizing buckets with
  | nil => cases buckets <;> rfl
  | cons turn path inductionHypothesis =>
      cases buckets <;> cases turn <;> simp [put, get, inductionHypothesis]

/-- An element is not found elsewhere. -/
theorem get_put_of_ne (element : α) (buckets : Buckets α) {path other : List Bool}
    (different : path ≠ other) :
    (buckets.put element path).get other = buckets.get other := by
  induction path generalizing buckets other with
  | nil =>
      cases other with
      | nil => exact absurd rfl different
      | cons turn other => cases buckets <;> cases turn <;> simp [put, get]
  | cons turn path inductionHypothesis =>
      cases other with
      | nil => cases buckets <;> cases turn <;> simp [put, get]
      | cons otherTurn other =>
          cases buckets <;> cases turn <;> cases otherTurn <;>
            simp_all [put, get]

/-- The turns told by the low bits of a number. -/
def turns : (depth : Nat) → (number : Nat) → List Bool
  | 0, _ => []
  | depth + 1, number => (number % 2 == 1) :: turns depth (number / 2)

end Buckets

end Diverge
