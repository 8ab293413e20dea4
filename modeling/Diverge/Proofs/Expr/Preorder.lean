import Mathlib.Data.Set.Finite.Basic
import Diverge.Proofs.Expr.Reads

/-!
# A walk is a recursion that remembers

A walk keeps its own stack, on which a node may stand many times, and marks a node when it
takes it off.  It enters the nodes that a recursion enters, in the same order: `descend`
marks a node that it has not seen, runs the hook on it, and walks its operands and then its
extras, from last to first, before it goes on (`walkAll_eq_descend`).

The top of the stack holds what the innermost call of the recursion has still to do, and
what lies below it is what the calls around it have to do.  So one statement about a part on
top of the stack is enough (`walk_append`).
-/

namespace Diverge

section

variable {σ : Type} {hook : Hook σ} {region : Region hook}

/-! ## The recursion -/

/-- What was seen is still seen. -/
def Visited.Within (visited later : Visited σ) : Prop :=
  ∀ id ∈ visited.seen, id ∈ later.seen

/-- What has been seen grows as walks follow each other. -/
theorem Visited.Within.trans
    {first second third : Visited σ}
    (before : first.Within second)
    (after : second.Within third) :
    first.Within third :=
  fun id seen => after id (before id seen)

theorem Visited.within_enter
    (visited : Visited σ)
    (node : Expr) :
    visited.Within (visited.enter hook node) :=
  fun _ seen => Std.HashSet.mem_insert.2 (.inr seen)

/-- Who has seen more has less to see. -/
theorem Region.unseen_le
    (region : Region hook)
    {visited later : Visited σ}
    (within : visited.Within later) :
    region.unseen later.seen ≤ region.unseen visited.seen := by
  refine List.countP_mono_left fun id _ unseen => ?_
  simp only [Bool.not_eq_true', Std.HashSet.contains_eq_false_iff_not_mem] at unseen ⊢
  exact fun seen => unseen (within id seen)

/--
Walk nodes by recursion, from left to right.  A node that was not seen before is entered;
then its operands are walked, and then its extras from last to first.
-/
def descend (hook : Hook σ) (region : Region hook) (visited : Visited σ) (nodes : List Expr)
    (inside : ∀ node ∈ nodes, region.Mem node) : { later : Visited σ // visited.Within later } :=
  match nodes, inside with
  | [], _ => ⟨visited, fun _ seen => seen⟩
  | node :: rest, inside =>
      have nodeInside : region.Mem node := inside node List.mem_cons_self
      have restInside : ∀ other ∈ rest, region.Mem other :=
        fun other member => inside other (List.mem_cons_of_mem _ member)
      if new : node.id ∈ visited.seen then descend hook region visited rest restInside
      else
        have : region.unseen (visited.enter hook node).seen < region.unseen visited.seen :=
          region.unseen_lt nodeInside new
        match descend hook region (visited.enter hook node) node.kids
            fun _ => region.kid_mem nodeInside with
        | ⟨afterKids, sinceNode⟩ =>
            match descend hook region afterKids (hook visited.state node).2.reverse
                fun _ member => region.extra_mem nodeInside (List.mem_reverse.1 member) with
            | ⟨afterExtras, sinceKids⟩ =>
                match descend hook region afterExtras rest restInside with
                | ⟨later, sinceExtras⟩ =>
                    ⟨later, (visited.within_enter node).trans
                      (sinceNode.trans (sinceKids.trans sinceExtras))⟩
termination_by (region.unseen visited.seen, nodes.length)
decreasing_by
  · exact Prod.Lex.right _ (by simp)
  · exact Prod.Lex.left _ _ this
  · exact Prod.Lex.left _ _ (Nat.lt_of_le_of_lt (region.unseen_le sinceNode) this)
  · exact Prod.Lex.left _ _
      (Nat.lt_of_le_of_lt (region.unseen_le (sinceNode.trans sinceKids)) this)

/-! ## The walk does the same -/

theorem walk_congr
    {visited : Visited σ}
    {first second : List Expr}
    (same : first = second)
    (inside : ∀ node ∈ first, region.Mem node)
    (insideToo : ∀ node ∈ second, region.Mem node) :
    walk hook region visited first inside = walk hook region visited second insideToo := by
  subst same
  rfl

/-- What lies on top of the stack is walked as the recursion walks it, before all else. -/
theorem walk_append
    {visited : Visited σ}
    {nodes : List Expr}
    (inside : ∀ node ∈ nodes, region.Mem node)
    {rest : List Expr}
    (both : ∀ node ∈ nodes ++ rest, region.Mem node) :
    walk hook region visited (nodes ++ rest) both =
      walk hook region (descend hook region visited nodes inside).1 rest
        fun node member => both node (List.mem_append_right _ member) := by
  fun_induction descend hook region visited nodes inside generalizing rest with
  | case1 visited => rfl
  | case2 visited node more inside nodeInside moreInside seen _ inductionHypothesis =>
      show walk hook region visited (node :: (more ++ rest)) both = _
      rw [walk, dif_pos seen, inductionHypothesis]
  | case3 visited node more inside nodeInside moreInside new fewer afterKids sinceNode
      ranKids afterExtras sinceKids ranExtras later sinceExtras ranMore _ walkKids walkExtras
      walkMore =>
      have stack : (node.kids ++ (hook visited.state node).2.reverse) ++ (more ++ rest) =
          node.kids ++ ((hook visited.state node).2.reverse ++ (more ++ rest)) :=
        List.append_assoc _ _ _
      have insideAll : ∀ other ∈ node.kids ++ ((hook visited.state node).2.reverse ++
          (more ++ rest)), region.Mem other := by
        simp only [List.forall_mem_append] at both ⊢
        exact ⟨fun _ => region.kid_mem nodeInside,
          fun _ member => region.extra_mem nodeInside (List.mem_reverse.1 member),
          moreInside, both.2⟩
      show walk hook region visited (node :: (more ++ rest)) both = _
      rw [walk, dif_neg new, walk_congr stack _ insideAll]
      show walk hook region (visited.enter hook node) _ insideAll = _
      rw [walkKids, ranKids, walkExtras, ranExtras, walkMore, ranMore]

/-- The walk of the loop, with nothing left behind its nodes, is what the recursion gives. -/
theorem walk_eq_descend
    {visited : Visited σ}
    {nodes : List Expr}
    (inside : ∀ node ∈ nodes, region.Mem node) :
    walk hook region visited nodes inside =
      (descend hook region visited nodes inside).1 := by
  rw [walk_congr (List.append_nil nodes).symm _ (by simpa using inside), walk_append inside, walk]

/-- Walking roots in turn is walking them by recursion, whatever the hook does. -/
theorem walkAll_eq_descend
    {visited : Visited σ}
    {roots : List Expr}
    (inside : ∀ root ∈ roots, region.Mem root) :
    walkAll hook region visited roots inside =
      (descend hook region visited roots inside).1 := by
  induction roots generalizing visited with
  | nil => rw [walkAll, descend]
  | cons root rest inductionHypothesis =>
      have insideOne : ∀ other ∈ [root], region.Mem other :=
        List.forall_mem_singleton.2 (inside root List.mem_cons_self)
      have insideRest : ∀ other ∈ rest, region.Mem other :=
        fun other member => inside other (List.mem_cons_of_mem _ member)
      calc walkAll hook region visited (root :: rest) inside
        _ = (descend hook region (walk hook region visited [root] insideOne) rest
              insideRest).1 := inductionHypothesis insideRest
        _ = walk hook region (walk hook region visited [root] insideOne) rest insideRest :=
            (walk_eq_descend insideRest).symm
        _ = walk hook region (descend hook region visited [root] insideOne).1 rest
              insideRest := by rw [walk_eq_descend insideOne]
        _ = walk hook region visited ([root] ++ rest) inside :=
            (walk_append insideOne inside).symm
        _ = (descend hook region visited (root :: rest) inside).1 := walk_eq_descend inside

end

/-! ## What is entered -/

/-- What is reached from the roots through operands and extras. -/
inductive Reached (extras : Expr → List Expr) (roots : List Expr) : Expr → Prop where
  | root
      {node : Expr}
      (isRoot : node ∈ roots) :
      Reached extras roots node
  | kid
      {node kid : Expr}
      (reached : Reached extras roots node)
      (isKid : kid ∈ node.kids) :
      Reached extras roots kid
  | extra
      {node extra : Expr}
      (reached : Reached extras roots node)
      (isExtra : extra ∈ extras node) :
      Reached extras roots extra

/-- Note every node that is entered, in order. -/
def noting (extras : Expr → List Expr) : Hook (List Expr) :=
  fun nodes node => (nodes ++ [node], extras node)

section

variable {extras : Expr → List Expr} {roots : List Expr}

/-- If finitely many nodes are reached, they are a region that a walk does not leave. -/
def Region.reached
    (finite : { node | Reached extras roots node }.Finite) : Region (noting extras) where
  Mem := Reached extras roots
  kid_mem := .kid
  extra_mem := .extra
  finite := ⟨finite.toFinset.toList.map Expr.id, fun node reached =>
    List.mem_map_of_mem (by simpa using reached)⟩

/-- The nodes noted are those seen, each of them once, and nothing next to them is forgotten. -/
structure Noted
    (extras : Expr → List Expr)
    (roots : List Expr)
    (visited : Visited (List Expr))
    (stack : List Expr) : Prop where
  reached : ∀ node ∈ visited.state, Reached extras roots node
  seen : ∀ id, id ∈ visited.seen ↔ id ∈ visited.state.map Expr.id
  once : (visited.state.map Expr.id).Nodup
  next : ∀ node ∈ visited.state, ∀ other ∈ node.kids ++ extras node,
    visited.Reaches stack other

theorem noted_start : Noted extras roots { seen := ∅, state := [] } [] := by
  constructor <;> simp

/-- With nothing left on the stack another root may be put there. -/
theorem Noted.push
    {visited : Visited (List Expr)}
    (noted : Noted extras roots visited [])
    (root : Expr) :
    Noted extras roots visited [root] := {
  noted with
  next := fun node member other isNext => (noted.next node member other isNext).of_nil _ }

/-- Entering a node that was not seen notes it, and puts what is next to it on the stack. -/
theorem Noted.enter
    {visited : Visited (List Expr)}
    {node : Expr}
    {rest : List Expr}
    (noted : Noted extras roots visited (node :: rest))
    (reached : Reached extras roots node)
    (new : node.id ∉ visited.seen) :
    Noted extras roots (visited.enter (noting extras) node)
      (visited.onward (noting extras) node rest) := by
  have state : (visited.enter (noting extras) node).state = visited.state ++ [node] := rfl
  constructor
  · rw [state, List.forall_mem_append]
    exact ⟨noted.reached, List.forall_mem_singleton.2 reached⟩
  · intro id
    rw [state, List.map_append, List.mem_append, ← noted.seen]
    show id ∈ visited.seen.insert node.id ↔ _
    rw [Std.HashSet.mem_insert, beq_iff_eq, List.map_singleton, List.mem_singleton, or_comm,
      eq_comm]
  · rw [state, List.map_append, List.map_singleton, List.nodup_append]
    refine ⟨noted.once, List.nodup_singleton _, ?_⟩
    rintro _ before _ here rfl
    rw [List.mem_singleton.1 here] at before
    exact new ((noted.seen _).2 before)
  · rw [state, List.forall_mem_append]
    refine ⟨fun other member further isNext =>
      (noted.next other member further isNext).enter, List.forall_mem_singleton.2 ?_⟩
    intro other isNext
    refine .inr (List.mem_append_left _ ?_)
    rcases List.mem_append.1 isNext with isKid | isExtra
    · exact List.mem_append_left _ isKid
    · exact List.mem_append_right _ (List.mem_reverse.2 isExtra)

/--
Every step of the walk keeps what is noted: the nodes seen, each once, with nothing next to them
forgotten.
-/
theorem Noted.keeps
    (finite : { node | Reached extras roots node }.Finite) :
    (Region.reached finite).Keeps (Noted extras roots) where
  skip _ _ _ seen noted := {
    noted with
    next := fun node member other isNext => (noted.next node member other isNext).skip seen }
  enter _ _ _ reached new noted := noted.enter reached new

/-- When the stack is empty and the roots were seen, all that is reached has been noted. -/
theorem Noted.mem_state
    {visited : Visited (List Expr)}
    (noted : Noted extras roots visited [])
    (apart : ∀ first second, Reached extras roots first → Reached extras roots second →
      first.id = second.id → first = second)
    (rootsSeen : ∀ root ∈ roots, root.id ∈ visited.seen)
    {node : Expr}
    (reached : Reached extras roots node) :
    node ∈ visited.state := by
  have of_seen {other : Expr} (isReached : Reached extras roots other)
      (isSeen : other.id ∈ visited.seen) : other ∈ visited.state := by
    obtain ⟨same, member, sameId⟩ := List.mem_map.1 ((noted.seen _).1 isSeen)
    rwa [apart same other (noted.reached same member) isReached sameId] at member
  have next_seen {other further : Expr} (member : other ∈ visited.state)
      (isNext : further ∈ other.kids ++ extras other) : further.id ∈ visited.seen :=
    (noted.next other member further isNext).resolve_right List.not_mem_nil
  induction reached with
  | root isRoot => exact of_seen (.root isRoot) (rootsSeen _ isRoot)
  | kid before isKid inductionHypothesis =>
      exact of_seen (before.kid isKid)
        (next_seen inductionHypothesis (List.mem_append_left _ isKid))
  | extra before isExtra inductionHypothesis =>
      exact of_seen (before.extra isExtra)
        (next_seen inductionHypothesis (List.mem_append_right _ isExtra))

/--
Let the extras of every node be given, with finitely many nodes reached from the roots, which
are told apart by their identities.  The walk over the roots ends, having entered the nodes
that the recursion enters, in the same order: all that are reached, each of them once.
-/
theorem walkAll_preorder
    (finite : { node | Reached extras roots node }.Finite)
    (apart : ∀ first second, Reached extras roots first → Reached extras roots second →
      first.id = second.id → first = second) :
    let start : Visited (List Expr) := { seen := ∅, state := [] }
    let order :=
      (walkAll (noting extras) (Region.reached finite) start roots fun _ => .root).state
    order =
        (descend (noting extras) (Region.reached finite) start roots fun _ => .root).1.state ∧
      order.Nodup ∧ ∀ node, node ∈ order ↔ Reached extras roots node := by
  intro start order
  have noted := (Noted.keeps finite).walkAll (fun _ root noted => noted.push root)
    (fun _ => Reached.root) noted_start
  refine ⟨congrArg Visited.state (walkAll_eq_descend _), .of_map _ noted.once, fun node => ?_⟩
  exact ⟨noted.reached node, noted.mem_state apart fun root isRoot =>
    mem_seen_walkAll _ isRoot⟩

end

namespace TableByte

/-- All that histories lead to from the lookup are its parts. -/
theorem mem_parts_of_reached
    {node : Expr}
    (reached : Reached Expr.written [lookup, stored] node) :
    node ∈ partsEach [lookup, stored] := by
  induction reached with
  | root isRoot => exact mem_partsEach_of_mem isRoot
  | kid _ isKid inductionHypothesis =>
      exact partsEach_closed (List.mem_append_left _ isKid) _ inductionHypothesis
  | extra _ isExtra inductionHypothesis =>
      exact partsEach_closed (List.mem_append_right _ isExtra) _ inductionHypothesis

theorem finite_reached : { node | Reached Expr.written [lookup, stored] node }.Finite :=
  (List.finite_toSet (partsEach [lookup, stored])).subset fun _ => mem_parts_of_reached

theorem eq_of_reached
    (first second : Expr)
    (isFirst : Reached Expr.written [lookup, stored] first)
    (isSecond : Reached Expr.written [lookup, stored] second)
    (same : first.id = second.id) :
    first = second := by
  have sound := reachable.sound
  have registered : ∀ root ∈ [lookup, stored],
      root.Registered workshop.histories workshop.table :=
    fun root isRoot => sound.registered root (by
      rw [expressions_workshop]
      simp only [List.mem_cons, List.not_mem_nil, or_false] at isRoot ⊢
      tauto)
  exact Expr.Registered.eq_of_id_eq sound.supports first
    (ArraySearch.registered_of_mem_partsEach registered (mem_parts_of_reached isFirst))
    (ArraySearch.registered_of_mem_partsEach registered (mem_parts_of_reached isSecond)) same

end TableByte

open TableByte in
/-- The zero is met three times below the lookup, and what was written comes last. -/
theorem walkAll_preorder_lookup :
    let order := (walkAll (noting Expr.written) (Region.reached finite_reached)
      { seen := ∅, state := [] } [lookup, stored] fun _ => .root).state
    order = [lookup, index, byte, zero, stored] ∧
      order = (descend (noting Expr.written) (Region.reached finite_reached)
        { seen := ∅, state := [] } [lookup, stored] fun _ => .root).1.state ∧
      order.Nodup ∧ ∀ node, node ∈ order ↔ Reached Expr.written [lookup, stored] node := by
  refine ⟨?_, walkAll_preorder finite_reached eq_of_reached⟩
  simp [walkAll, walk, noting, Expr.written, Updates.written, Expr.kids, Expr.id, Expr.tag,
    lookup, written, stored, index, byte, zero]

end Diverge
