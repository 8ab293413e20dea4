import Std.Data.HashSet
import Diverge.Expr.Basic

/-!
# Walking shared expressions

A walk enters every node it reaches once.  It keeps a stack of nodes to enter and the identities
of the nodes entered.  A hook is run on each node that is entered; it changes a state of its own
and may name further expressions, the *extras*, to be walked.  The operands of a node are walked
next, left to right, and after them its extras, from last to first.

The walk ends because all it reaches lies in a region with finitely many identities.  The region
is evidence only; nothing is computed from it.  `Region.ofParts` is the region of all parts of
the roots, through operands and through the writes of histories.
-/

namespace Diverge

/-- What is done on entering a node: a change of state, and extras to walk. -/
abbrev Hook (σ : Type) := σ → Expr → σ × List Expr

/-- A set of nodes that a walk with the given hook does not leave. -/
structure Region {σ : Type} (hook : Hook σ) where
  Mem : Expr → Prop
  kid_mem : ∀ {node kid : Expr}, Mem node → kid ∈ node.kids → Mem kid
  extra_mem : ∀ {node extra : Expr} {state : σ},
    Mem node → extra ∈ (hook state node).2 → Mem extra
  finite : ∃ identities : List Nat, ∀ node, Mem node → node.id ∈ identities

namespace Region

variable {σ : Type} {hook : Hook σ}

/-- How many identities of the region have not been seen. -/
noncomputable def unseen (region : Region hook) (seen : Std.HashSet Nat) : Nat :=
  region.finite.choose.countP fun identity => !seen.contains identity

private theorem countP_unseen_lt {identities : List Nat} {seen : Std.HashSet Nat} {identity : Nat}
    (member : identity ∈ identities) (new : identity ∉ seen) :
    identities.countP (fun other => !(seen.insert identity).contains other) <
      identities.countP fun other => !seen.contains other := by
  induction identities with
  | nil => simp at member
  | cons head tail inductionHypothesis =>
      have atMost :
          tail.countP (fun other => !(seen.insert identity).contains other) ≤
            tail.countP fun other => !seen.contains other :=
        List.countP_mono_left fun other _ => by simp
      by_cases same : head = identity
      · subst same
        simp [new] at atMost ⊢
        omega
      · have inside : identity ∈ tail := by
          rcases List.mem_cons.1 member with equality | inside
          · exact absurd equality.symm same
          · exact inside
        have less := inductionHypothesis inside
        have other : ¬ identity = head := fun equality => same equality.symm
        by_cases known : head ∈ seen <;> simp_all

/-- Seeing a new node of the region leaves fewer to see. -/
theorem unseen_lt (region : Region hook) {seen : Std.HashSet Nat} {node : Expr}
    (member : region.Mem node) (new : node.id ∉ seen) :
    region.unseen (seen.insert node.id) < region.unseen seen :=
  countP_unseen_lt (region.finite.choose_spec node member) new

end Region

/-- Where a walk has arrived: the identities entered, and the state of the hook. -/
structure Visited (σ : Type) where
  seen : Std.HashSet Nat
  state : σ

variable {σ : Type}

/-- Walk a stack of nodes, the top of which comes first. -/
def walk (hook : Hook σ) (region : Region hook) (visited : Visited σ) (stack : List Expr)
    (inside : ∀ node ∈ stack, region.Mem node) : Visited σ :=
  match stack, inside with
  | [], _ => visited
  | node :: rest, inside =>
      have nodeInside : region.Mem node := inside node List.mem_cons_self
      have restInside : ∀ other ∈ rest, region.Mem other :=
        fun other member => inside other (List.mem_cons_of_mem _ member)
      if new : node.id ∈ visited.seen then
        walk hook region visited rest restInside
      else
        let entered := hook visited.state node
        walk hook region { seen := visited.seen.insert node.id, state := entered.1 }
          (node.kids ++ entered.2.reverse ++ rest)
          (by
            intro other member
            simp only [List.mem_append, List.mem_reverse] at member
            rcases member with (kid | extra) | later
            · exact region.kid_mem nodeInside kid
            · exact region.extra_mem nodeInside extra
            · exact restInside other later)
termination_by (region.unseen visited.seen, stack.length)
decreasing_by
  · exact Prod.Lex.right _ (by simp)
  · exact Prod.Lex.left _ _ (region.unseen_lt nodeInside new)

/-- Walk several roots in turn; what one of them entered is not entered again. -/
def walkAll (hook : Hook σ) (region : Region hook) (visited : Visited σ) :
    (roots : List Expr) → (∀ root ∈ roots, region.Mem root) → Visited σ
  | [], _ => visited
  | root :: rest, inside =>
      walkAll hook region
        (walk hook region visited [root] fun _ member =>
          List.mem_singleton.1 member ▸ inside root List.mem_cons_self)
        rest fun other member => inside other (List.mem_cons_of_mem _ member)

end Diverge
