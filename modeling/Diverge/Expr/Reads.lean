import Diverge.Fault
import Diverge.Expr.Parts

/-!
# The reads of an expression

`Expr.reads` lists the reads that an expression reaches through operands and, if asked for,
through the writes of histories.  A node is marked when it is put on the stack, constants are
never put there, and the newest entry of the stack is taken first.  Of a read put together by
hand only the first operand is looked at; it has no history to look into.
-/

namespace Diverge

mutual

/-- The size of an expression, histories included. -/
def Expr.weight : Expr → Nat
  | .const _ _ => 1
  | .notOptimized _ source => source.weight + 1
  | .read _ updates index => index.weight + updates.weight + 1
  | .select _ _ cond onTrue onFalse => cond.weight + onTrue.weight + onFalse.weight + 1
  | .concat _ high low => high.weight + low.weight + 1
  | .extract _ _ source => source.weight + 1
  | .zext _ source => source.weight + 1
  | .sext _ source => source.weight + 1
  | .not _ source => source.weight + 1
  | .binary _ _ left right => left.weight + right.weight + 1
  | .loose _ _ _ kids => weightEach kids + 1

/-- The size of a history. -/
def Updates.weight : Updates → Nat
  | .root _ => 0
  | .write _ index value older => index.weight + value.weight + older.weight

/-- The size of several expressions. -/
def weightEach : List Expr → Nat
  | [] => 0
  | expression :: rest => expression.weight + weightEach rest

end

theorem weightEach_kids (expression : Expr) :
    weightEach expression.kids < expression.weight := by
  cases expression <;> grind [Expr.kids, Expr.weight, weightEach]

namespace ReadSearch

/-- The indices and values of the writes that a history adds to those walked. -/
def pending (walked : Std.HashSet Nat) (updates : Updates) : List Expr :=
  (updates.unwalked walked).1.flatMap fun (index, value) => [index, value]

theorem weightEach_pending (updates : Updates) (walked : Std.HashSet Nat) :
    weightEach (pending walked updates) ≤ updates.weight := by
  match updates with
  | .root _ => simp [pending, Updates.unwalked, weightEach]
  | .write id index value older =>
      have bound := weightEach_pending older (walked.insert id)
      unfold pending Updates.unwalked
      split
      · simp [weightEach]
      · simp only [pending] at bound
        simp only [List.flatMap_cons, List.cons_append, List.nil_append, weightEach,
          Updates.weight]
        omega

/-- The nodes still to be looked at, and the identities of all nodes that ever were. -/
structure Agenda where
  stack : List Expr
  marked : Std.HashSet Nat

/-- Put a node on the stack, unless it is a constant or marked. -/
def Agenda.push (agenda : Agenda) (node : Expr) : Agenda :=
  if node.isConstant || agenda.marked.contains node.id then agenda
  else { stack := node :: agenda.stack, marked := agenda.marked.insert node.id }

theorem Agenda.weightEach_push (agenda : Agenda) (node : Expr) :
    weightEach (agenda.push node).stack ≤ node.weight + weightEach agenda.stack := by
  unfold push
  split <;> simp [weightEach]

theorem Agenda.weightEach_pushAll (nodes : List Expr) (agenda : Agenda) :
    weightEach (nodes.foldl push agenda).stack ≤ weightEach nodes + weightEach agenda.stack := by
  induction nodes generalizing agenda with
  | nil => simp [weightEach]
  | cons node rest inductionHypothesis =>
      have later := inductionHypothesis (agenda.push node)
      have now := agenda.weightEach_push node
      simp only [List.foldl_cons, weightEach]
      omega

/-- The nodes to look at after a node, and the writes walked by then. -/
def successors (histories : Bool) (walked : Std.HashSet Nat) :
    Expr → Except Fault (List Expr × Std.HashSet Nat)
  | .read _ updates index =>
      .ok (if histories then (index :: pending walked updates, (updates.unwalked walked).2)
        else ([index], walked))
  | .loose _ (some .read) _ kids =>
      match kids with
      | [] => .error .tupleIndex
      | first :: _ => if histories then .error .absentUpdates else .ok ([first], walked)
  | node => .ok (node.kids, walked)

theorem weightEach_successors {histories : Bool} {walked : Std.HashSet Nat} {node : Expr}
    {next : List Expr × Std.HashSet Nat} (found : successors histories walked node = .ok next) :
    weightEach next.1 < node.weight := by
  unfold successors at found
  split at found
  · rename_i tag updates index
    have bound := weightEach_pending updates walked
    obtain rfl := Except.ok.inj found
    split <;> simp only [Expr.weight, weightEach] <;> omega
  · split at found
    · simp at found
    · split at found
      · simp at found
      · obtain rfl := Except.ok.inj found
        simp only [Expr.weight, weightEach]
        omega
  · obtain rfl := Except.ok.inj found
    exact weightEach_kids _

/-- Take nodes from the stack until it is empty, collecting the reads. -/
def run (histories : Bool) : Agenda → Std.HashSet Nat → Array Expr → Except Fault (List Expr)
  | ⟨[], _⟩, _, reads => .ok reads.toList
  | ⟨node :: rest, marked⟩, walked, reads =>
      match found : successors histories walked node with
      | .error fault => .error fault
      | .ok next =>
          have := weightEach_successors found
          run histories (next.1.foldl Agenda.push ⟨rest, marked⟩) next.2
            (if node.kind? = some .read then reads.push node else reads)
termination_by agenda => weightEach agenda.stack
decreasing_by
  have pushed := Agenda.weightEach_pushAll next.1 ⟨rest, marked⟩
  simp only [weightEach] at pushed ⊢
  omega

end ReadSearch

/-- The reads that an expression reaches; with `histories`, also through what was written. -/
def Expr.reads (expression : Expr) (histories : Bool) : Except Fault (List Expr) :=
  ReadSearch.run histories (ReadSearch.Agenda.push { stack := [], marked := ∅ } expression) ∅ #[]

end Diverge
