import Diverge.Expr.Walk

/-!
# The parts of an expression

The parts of an expression are the expression itself, the parts of its operands and, for a read,
the parts of the indices and values written in its history.  A walk whose extras are all taken
from histories stays among the parts of its roots, so it ends.
-/

namespace Diverge

/-- The indices and values written in a history, newest first. -/
def Updates.written : Updates → List Expr
  | .root _ => []
  | .write _ index value older => index :: value :: older.written

/--
The writes of a history, newest first, down to the first one that has been walked, and the
identities of all writes walked after that.  Histories share their tails, so what is older than a
walked write has been walked too.
-/
def Updates.unwalked (walked : Std.HashSet Nat) :
    Updates → List (Expr × Expr) × Std.HashSet Nat
  | .root _ => ([], walked)
  | .write id index value older =>
      if id ∈ walked then ([], walked)
      else
        let rest := older.unwalked (walked.insert id)
        ((index, value) :: rest.1, rest.2)

theorem Updates.mem_written_of_mem_unwalked {index value : Expr} (updates : Updates)
    (walked : Std.HashSet Nat) (member : (index, value) ∈ (updates.unwalked walked).1) :
    index ∈ updates.written ∧ value ∈ updates.written := by
  match updates with
  | .root _ => simp [unwalked] at member
  | .write id newIndex newValue older =>
      unfold unwalked at member
      split at member
      · simp at member
      · simp only [List.mem_cons, Prod.mk.injEq] at member
        simp only [written, List.mem_cons]
        rcases member with ⟨rfl, rfl⟩ | inOlder
        · simp
        · have both := mem_written_of_mem_unwalked older _ inOlder
          exact ⟨Or.inr (Or.inr both.1), Or.inr (Or.inr both.2)⟩

/-- The indices and values written in the history of a read. -/
def Expr.written : Expr → List Expr
  | .read _ updates _ => updates.written
  | _ => []

mutual

/-- All parts of an expression, the expression first. -/
def Expr.parts : Expr → List Expr
  | .const tag value => [.const tag value]
  | .notOptimized tag source => .notOptimized tag source :: source.parts
  | .read tag updates index => .read tag updates index :: (index.parts ++ updates.parts)
  | .select tag patches cond onTrue onFalse =>
      .select tag patches cond onTrue onFalse :: (cond.parts ++ (onTrue.parts ++ onFalse.parts))
  | .concat tag high low => .concat tag high low :: (high.parts ++ low.parts)
  | .extract tag offset source => .extract tag offset source :: source.parts
  | .zext tag source => .zext tag source :: source.parts
  | .sext tag source => .sext tag source :: source.parts
  | .not tag source => .not tag source :: source.parts
  | .binary tag operator left right =>
      .binary tag operator left right :: (left.parts ++ right.parts)
  | .loose tag kind value kids => .loose tag kind value kids :: partsEach kids

/-- All parts of the indices and values written in a history. -/
def Updates.parts : Updates → List Expr
  | .root _ => []
  | .write _ index value older => index.parts ++ (value.parts ++ older.parts)

/-- All parts of several expressions. -/
def partsEach : List Expr → List Expr
  | [] => []
  | expression :: rest => expression.parts ++ partsEach rest

end

/-- An expression is one of its parts. -/
@[simp]
theorem Expr.self_mem_parts (expression : Expr) : expression ∈ expression.parts := by
  cases expression <;> simp [Expr.parts]

/-- The expressions next to a node: its operands, and what its history has written. -/
def Expr.neighbours (expression : Expr) : List Expr :=
  expression.kids ++ expression.written

theorem Updates.mem_parts_of_mem_written {updates : Updates} {expression : Expr}
    (member : expression ∈ updates.written) : expression ∈ updates.parts := by
  match updates with
  | .root _ => simp [Updates.written] at member
  | .write _ index value older =>
      simp only [Updates.written, List.mem_cons] at member
      simp only [Updates.parts, List.mem_append]
      rcases member with rfl | rfl | older
      · simp
      · simp
      · exact Or.inr (Or.inr (mem_parts_of_mem_written older))

theorem mem_partsEach_of_mem {expressions : List Expr} {expression : Expr}
    (member : expression ∈ expressions) : expression ∈ partsEach expressions := by
  match expressions with
  | [] => simp at member
  | first :: rest =>
      simp only [List.mem_cons] at member
      simp only [partsEach, List.mem_append]
      rcases member with rfl | later
      · simp
      · exact Or.inr (mem_partsEach_of_mem later)

/-- What stands next to an expression is one of its parts. -/
theorem Expr.mem_parts_of_mem_neighbours {expression neighbour : Expr}
    (member : neighbour ∈ expression.neighbours) : neighbour ∈ expression.parts := by
  cases expression with
  | read tag updates index =>
      simp only [neighbours, kids, written, List.cons_append, List.nil_append,
        List.mem_cons] at member
      simp only [parts, List.mem_cons, List.mem_append]
      rcases member with rfl | inHistory
      · simp
      · exact Or.inr (Or.inr (Updates.mem_parts_of_mem_written inHistory))
  | loose tag kind value kids =>
      simp only [neighbours, Expr.kids, written, List.append_nil] at member
      simp only [parts, List.mem_cons]
      exact Or.inr (mem_partsEach_of_mem member)
  | const tag value => simp [neighbours, kids, written] at member
  | select tag patches cond onTrue onFalse =>
      simp only [neighbours, kids, written, List.append_nil, List.mem_cons,
        List.not_mem_nil, or_false] at member
      rcases member with rfl | rfl | rfl <;> simp [parts]
  | concat tag high low =>
      simp only [neighbours, kids, written, List.append_nil, List.mem_cons,
        List.not_mem_nil, or_false] at member
      rcases member with rfl | rfl <;> simp [parts]
  | binary tag operator left right =>
      simp only [neighbours, kids, written, List.append_nil, List.mem_cons,
        List.not_mem_nil, or_false] at member
      rcases member with rfl | rfl <;> simp [parts]
  | _ =>
      simp only [neighbours, kids, written, List.append_nil, List.mem_singleton] at member
      subst member
      simp [parts]

mutual

/-- The parts of an expression are closed under going to a neighbour. -/
theorem Expr.parts_closed {node neighbour : Expr} (next : neighbour ∈ node.neighbours) :
    (expression : Expr) → node ∈ expression.parts → neighbour ∈ expression.parts
  | .const tag value, member => by
      have same : node = .const tag value := by simpa [Expr.parts] using member
      exact Expr.mem_parts_of_mem_neighbours (same ▸ next)
  | .notOptimized tag source, member => by
      rcases List.mem_cons.1 member with same | inner
      · exact Expr.mem_parts_of_mem_neighbours (same ▸ next)
      · exact List.mem_cons_of_mem _ (Expr.parts_closed next source inner)
  | .read tag updates index, member => by
      rcases List.mem_cons.1 member with same | inner
      · exact Expr.mem_parts_of_mem_neighbours (same ▸ next)
      · rcases List.mem_append.1 inner with inner | inner
        · exact List.mem_cons_of_mem _
            (List.mem_append_left _ (Expr.parts_closed next index inner))
        · exact List.mem_cons_of_mem _
            (List.mem_append_right _ (Updates.parts_closed next updates inner))
  | .select tag patches cond onTrue onFalse, member => by
      rcases List.mem_cons.1 member with same | inner
      · exact Expr.mem_parts_of_mem_neighbours (same ▸ next)
      · refine List.mem_cons_of_mem _ (List.mem_append.2 ?_)
        rcases List.mem_append.1 inner with inner | inner
        · exact Or.inl (Expr.parts_closed next cond inner)
        · refine Or.inr (List.mem_append.2 ?_)
          rcases List.mem_append.1 inner with inner | inner
          · exact Or.inl (Expr.parts_closed next onTrue inner)
          · exact Or.inr (Expr.parts_closed next onFalse inner)
  | .concat tag high low, member => by
      rcases List.mem_cons.1 member with same | inner
      · exact Expr.mem_parts_of_mem_neighbours (same ▸ next)
      · refine List.mem_cons_of_mem _ (List.mem_append.2 ?_)
        rcases List.mem_append.1 inner with inner | inner
        · exact Or.inl (Expr.parts_closed next high inner)
        · exact Or.inr (Expr.parts_closed next low inner)
  | .extract tag offset source, member => by
      rcases List.mem_cons.1 member with same | inner
      · exact Expr.mem_parts_of_mem_neighbours (same ▸ next)
      · exact List.mem_cons_of_mem _ (Expr.parts_closed next source inner)
  | .zext tag source, member => by
      rcases List.mem_cons.1 member with same | inner
      · exact Expr.mem_parts_of_mem_neighbours (same ▸ next)
      · exact List.mem_cons_of_mem _ (Expr.parts_closed next source inner)
  | .sext tag source, member => by
      rcases List.mem_cons.1 member with same | inner
      · exact Expr.mem_parts_of_mem_neighbours (same ▸ next)
      · exact List.mem_cons_of_mem _ (Expr.parts_closed next source inner)
  | .not tag source, member => by
      rcases List.mem_cons.1 member with same | inner
      · exact Expr.mem_parts_of_mem_neighbours (same ▸ next)
      · exact List.mem_cons_of_mem _ (Expr.parts_closed next source inner)
  | .binary tag operator left right, member => by
      rcases List.mem_cons.1 member with same | inner
      · exact Expr.mem_parts_of_mem_neighbours (same ▸ next)
      · refine List.mem_cons_of_mem _ (List.mem_append.2 ?_)
        rcases List.mem_append.1 inner with inner | inner
        · exact Or.inl (Expr.parts_closed next left inner)
        · exact Or.inr (Expr.parts_closed next right inner)
  | .loose tag kind value kids, member => by
      rcases List.mem_cons.1 member with same | inner
      · exact Expr.mem_parts_of_mem_neighbours (same ▸ next)
      · exact List.mem_cons_of_mem _ (partsEach_closed next kids inner)

/-- The parts of a history are closed under going to a neighbour. -/
theorem Updates.parts_closed {node neighbour : Expr} (next : neighbour ∈ node.neighbours) :
    (updates : Updates) → node ∈ updates.parts → neighbour ∈ updates.parts
  | .root array, member => by simp [Updates.parts] at member
  | .write id index value older, member => by
      refine List.mem_append.2 ?_
      rcases List.mem_append.1 member with inner | inner
      · exact Or.inl (Expr.parts_closed next index inner)
      · refine Or.inr (List.mem_append.2 ?_)
        rcases List.mem_append.1 inner with inner | inner
        · exact Or.inl (Expr.parts_closed next value inner)
        · exact Or.inr (Updates.parts_closed next older inner)

/-- The parts of several expressions are closed under going to a neighbour. -/
theorem partsEach_closed {node neighbour : Expr} (next : neighbour ∈ node.neighbours) :
    (expressions : List Expr) → node ∈ partsEach expressions →
      neighbour ∈ partsEach expressions
  | [], member => by simp [partsEach] at member
  | first :: rest, member => by
      refine List.mem_append.2 ?_
      rcases List.mem_append.1 member with inner | inner
      · exact Or.inl (Expr.parts_closed next first inner)
      · exact Or.inr (partsEach_closed next rest inner)

end

/-- A hook takes its extras from the history of the node it is run on. -/
def Hook.FromHistory {σ : Type} (hook : Hook σ) : Prop :=
  ∀ state node, ∀ extra ∈ (hook state node).2, extra ∈ node.written

/-- The parts of the roots, in which a walk stays whose extras come from histories. -/
def Region.ofParts {σ : Type} (hook : Hook σ) (roots : List Expr) (history : hook.FromHistory) :
    Region hook where
  Mem node := node ∈ partsEach roots
  kid_mem member kid := partsEach_closed (List.mem_append_left _ kid) roots member
  extra_mem member extra :=
    partsEach_closed (List.mem_append_right _ (history _ _ _ extra)) roots member
  finite := ⟨(partsEach roots).map Expr.id, fun _ member => List.mem_map_of_mem member⟩

/-- Walk the roots in turn with a hook that takes its extras from histories. -/
def walkParts {σ : Type} (hook : Hook σ) (history : hook.FromHistory) (start : σ)
    (roots : List Expr) : Visited σ :=
  walkAll hook (Region.ofParts hook roots history) { seen := ∅, state := start } roots
    fun _ member => mem_partsEach_of_mem member

end Diverge
