import Diverge.Expr.Arrays
import Diverge.Proofs.Expr.Workshop

/-!
# Walks leave nothing out

A walk enters what is on its stack, then the operands of what it has entered and the
extras that the hook names.  What holds of a walk is proved by an invariant that speaks
of the nodes seen and of the stack together (`Region.Keeps`).

A search for arrays breaks a history off at the first write that it has walked before.
It misses nothing by that, since writes are told apart by their identities and what is
older than a walked write has been walked as well: the arrays of all reads among the
parts of the roots are found (`ArraySearch.mem_found_run`).
-/

namespace Diverge

/-! ## Invariants of walks -/

section

variable {σ : Type} {hook : Hook σ} {region : Region hook}

/-- Where a walk is when it has entered a node. -/
def Visited.enter (hook : Hook σ) (visited : Visited σ) (node : Expr) : Visited σ where
  seen := visited.seen.insert node.id
  state := (hook visited.state node).1

/-- The stack of a walk that has entered a node. -/
def Visited.onward
    (hook : Hook σ) (visited : Visited σ) (node : Expr) (rest : List Expr) : List Expr :=
  node.kids ++ (hook visited.state node).2.reverse ++ rest

/-- What holds of the nodes seen and the stack still holds after a step of the walk. -/
structure Region.Keeps
    (region : Region hook) (invariant : Visited σ → List Expr → Prop) : Prop where
  skip : ∀ visited node rest, node.id ∈ visited.seen →
    invariant visited (node :: rest) → invariant visited rest
  enter : ∀ visited node rest, region.Mem node → node.id ∉ visited.seen →
    invariant visited (node :: rest) →
      invariant (visited.enter hook node) (visited.onward hook node rest)

/-- An invariant that each step keeps holds when the stack is empty. -/
theorem Region.Keeps.walk
    {invariant : Visited σ → List Expr → Prop}
    (keeps : region.Keeps invariant)
    {visited : Visited σ}
    {stack : List Expr}
    (inside : ∀ node ∈ stack, region.Mem node)
    (initial : invariant visited stack) :
    invariant (walk hook region visited stack inside) [] := by
  fun_induction Diverge.walk hook region visited stack inside with
  | case1 visited => exact initial
  | case2 visited node rest inside nodeInside restInside seen _ inductionHypothesis =>
      exact inductionHypothesis (keeps.skip visited node rest seen initial)
  | case3 visited node rest inside nodeInside restInside new entered _
      inductionHypothesis =>
      exact inductionHypothesis (keeps.enter visited node rest nodeInside new initial)

/-- The same over several roots, if a root may be put on an empty stack. -/
theorem Region.Keeps.walkAll
    {invariant : Visited σ → List Expr → Prop}
    (keeps : region.Keeps invariant)
    (start : ∀ visited root, invariant visited [] → invariant visited [root])
    {visited : Visited σ}
    {roots : List Expr}
    (inside : ∀ root ∈ roots, region.Mem root)
    (initial : invariant visited []) :
    invariant (walkAll hook region visited roots inside) [] := by
  induction roots generalizing visited with
  | nil => exact initial
  | cons root rest inductionHypothesis =>
      exact inductionHypothesis _ (keeps.walk _ (start visited root initial))

/-- A node that has been entered, or will be. -/
def Visited.Reaches (visited : Visited σ) (stack : List Expr) (node : Expr) : Prop :=
  node.id ∈ visited.seen ∨ node ∈ stack

/-- Taking a node from the stack that was seen before loses nothing. -/
theorem Visited.Reaches.skip
    {visited : Visited σ}
    {node other : Expr}
    {rest : List Expr}
    (reaches : visited.Reaches (node :: rest) other)
    (seen : node.id ∈ visited.seen) :
    visited.Reaches rest other := by
  rcases reaches with inside | onStack
  · exact .inl inside
  · rcases List.mem_cons.1 onStack with rfl | later
    · exact .inl seen
    · exact .inr later

theorem Visited.Reaches.of_nil
    {visited : Visited σ}
    {node : Expr}
    (reaches : visited.Reaches [] node)
    (stack : List Expr) :
    visited.Reaches stack node :=
  .inl (reaches.resolve_right List.not_mem_nil)

/--
Entering a node keeps what is reached: the node is seen now, and what it leads to is on the
stack.
-/
theorem Visited.Reaches.enter
    {visited : Visited σ}
    {node other : Expr}
    {rest : List Expr}
    (reaches : visited.Reaches (node :: rest) other) :
    (visited.enter hook node).Reaches (visited.onward hook node rest) other := by
  rcases reaches with inside | onStack
  · exact .inl (Std.HashSet.mem_insert.2 (.inr inside))
  · rcases List.mem_cons.1 onStack with rfl | later
    · exact .inl Std.HashSet.mem_insert_self
    · exact .inr (List.mem_append_right _ later)

/-- What a walk is to reach it never loses. -/
theorem Region.keeps_reaches
    (region : Region hook)
    (node : Expr) :
    region.Keeps fun visited stack => visited.Reaches stack node where
  skip _ _ _ seen reaches := reaches.skip seen
  enter _ _ _ _ _ reaches := reaches.enter

/-- All roots are entered. -/
theorem mem_seen_walkAll
    {visited : Visited σ}
    {roots : List Expr}
    (inside : ∀ root ∈ roots, region.Mem root)
    {root : Expr}
    (isRoot : root ∈ roots) :
    root.id ∈ (walkAll hook region visited roots inside).seen := by
  have keeps := region.keeps_reaches root
  have seen {visited : Visited σ} (reaches : visited.Reaches [] root) :
      root.id ∈ visited.seen :=
    reaches.resolve_right List.not_mem_nil
  induction roots generalizing visited with
  | nil => exact absurd isRoot List.not_mem_nil
  | cons first rest inductionHypothesis =>
      rcases List.mem_cons.1 isRoot with rfl | later
      · rw [Diverge.walkAll]
        exact seen (keeps.walkAll (fun _ _ reaches => .inl (seen reaches)) _
          (keeps.walk _ (.inr List.mem_cons_self)))
      · exact inductionHypothesis _ later

end

/-! ## Parts -/

mutual

/-- What is passed on to neighbours reaches all parts. -/
theorem Expr.forall_mem_parts
    {property : Expr → Prop}
    (passed : ∀ node, property node → ∀ next ∈ node.neighbours, property next) :
    (expression : Expr) → property expression → ∀ part ∈ expression.parts, property part
  | .const tag value, holds => by simpa [Expr.parts] using holds
  | .notOptimized tag source, holds | .extract tag _ source, holds | .zext tag source, holds
  | .sext tag source, holds | .not tag source, holds =>
      List.forall_mem_cons.2 ⟨holds, Expr.forall_mem_parts passed source
        (passed _ holds source (by simp [Expr.neighbours, Expr.kids]))⟩
  | .read tag updates index, holds => by
      have next := passed _ holds
      simp only [Expr.neighbours, Expr.kids, Expr.written, List.forall_mem_append,
        List.forall_mem_singleton] at next
      exact List.forall_mem_cons.2 ⟨holds, List.forall_mem_append.2
        ⟨Expr.forall_mem_parts passed index next.1,
          Updates.forall_mem_parts passed updates next.2⟩⟩
  | .select tag patches cond onTrue onFalse, holds => by
      have next := passed _ holds
      simp only [Expr.neighbours, Expr.kids, Expr.written, List.append_nil,
        List.forall_mem_cons] at next
      exact List.forall_mem_cons.2 ⟨holds, List.forall_mem_append.2
        ⟨Expr.forall_mem_parts passed cond next.1, List.forall_mem_append.2
          ⟨Expr.forall_mem_parts passed onTrue next.2.1,
            Expr.forall_mem_parts passed onFalse next.2.2.1⟩⟩⟩
  | .concat tag left right, holds | .binary tag _ left right, holds => by
      have next := passed _ holds
      simp only [Expr.neighbours, Expr.kids, Expr.written, List.append_nil,
        List.forall_mem_cons] at next
      exact List.forall_mem_cons.2 ⟨holds, List.forall_mem_append.2
        ⟨Expr.forall_mem_parts passed left next.1,
          Expr.forall_mem_parts passed right next.2.1⟩⟩
  | .loose tag kind value kids, holds => by
      have next := passed _ holds
      simp only [Expr.neighbours, Expr.kids, Expr.written, List.append_nil] at next
      exact List.forall_mem_cons.2 ⟨holds, forall_mem_partsEach passed kids next⟩

/--
What neighbours pass on to each other holds of all parts of a history if it holds of what was
written.
-/
theorem Updates.forall_mem_parts
    {property : Expr → Prop}
    (passed : ∀ node, property node → ∀ next ∈ node.neighbours, property next) :
    (updates : Updates) → (∀ expression ∈ updates.written, property expression) →
      ∀ part ∈ updates.parts, property part
  | .root array, _ => by simp [Updates.parts]
  | .write id index value older, holds => by
      simp only [Updates.written, List.forall_mem_cons] at holds
      exact List.forall_mem_append.2 ⟨Expr.forall_mem_parts passed index holds.1,
        List.forall_mem_append.2 ⟨Expr.forall_mem_parts passed value holds.2.1,
          Updates.forall_mem_parts passed older holds.2.2⟩⟩

/-- The same for the parts of a list of expressions. -/
theorem forall_mem_partsEach
    {property : Expr → Prop}
    (passed : ∀ node, property node → ∀ next ∈ node.neighbours, property next) :
    (expressions : List Expr) → (∀ expression ∈ expressions, property expression) →
      ∀ part ∈ partsEach expressions, property part
  | [], _ => by simp [partsEach]
  | first :: rest, holds => by
      rw [List.forall_mem_cons] at holds
      exact List.forall_mem_append.2 ⟨Expr.forall_mem_parts passed first holds.1,
        forall_mem_partsEach passed rest holds.2⟩

end

/-- The parts of a list are the parts of its expressions. -/
theorem mem_partsEach
    {part : Expr}
    {expressions : List Expr} :
    part ∈ partsEach expressions ↔ ∃ expression ∈ expressions, part ∈ expression.parts := by
  induction expressions with
  | nil => simp [partsEach]
  | cons first rest inductionHypothesis =>
      simp [partsEach, inductionHypothesis]

/-- What holds throughout an expression holds throughout its parts. -/
theorem Expr.Throughout.part
    {condition : Expr → Prop}
    {expression part : Expr}
    (holds : expression.Throughout condition)
    (inside : part ∈ expression.parts) :
    part.Throughout condition := by
  have closed (node : Expr) (isPart : node ∈ expression.parts) :
      ∀ next ∈ node.neighbours, next ∈ expression.parts :=
    fun _ next => Expr.parts_closed next expression isPart
  exact fun inner member =>
    holds inner (Expr.forall_mem_parts closed part inside inner member)

theorem Expr.Measured.lacksHistory_eq_false
    {node : Expr}
    (measured : node.Measured) :
    node.lacksHistory = false := by
  cases node with
  | loose tag kind value kids => exact measured.elim
  | _ => rfl

/-! ## Histories -/

/-- Histories that are told apart by their newest write, together with what is older. -/
structure Updates.Lineage (histories : List Updates) : Prop where
  newest : ∀ first ∈ histories, ∀ second ∈ histories, ∀ id,
    first.newest? = some id → second.newest? = some id → first = second
  older : ∀ id index value older,
    Updates.write id index value older ∈ histories → older ∈ histories

/-- A history joins others when its newest write is new and what is older is there. -/
theorem Updates.Lineage.cons
    {histories : List Updates}
    (lineage : Updates.Lineage histories)
    {updates : Updates}
    (apart : ∀ other ∈ histories, ∀ id,
      updates.newest? = some id → other.newest? ≠ some id)
    (below : ∀ id index value older,
      updates = .write id index value older → older ∈ histories) :
    Updates.Lineage (updates :: histories) := by
  constructor
  · intro first isFirst second isSecond id newest newestToo
    rcases List.mem_cons.1 isFirst with rfl | oldFirst
    · rcases List.mem_cons.1 isSecond with rfl | oldSecond
      · rfl
      · exact (apart second oldSecond id newest newestToo).elim
    · rcases List.mem_cons.1 isSecond with rfl | oldSecond
      · exact (apart first oldFirst id newestToo newest).elim
      · exact lineage.newest first oldFirst second oldSecond id newest newestToo
  · intro id index value older member
    rcases List.mem_cons.1 member with isNew | old
    · exact List.mem_cons_of_mem _ (below id index value older isNew.symm)
    · exact List.mem_cons_of_mem _ (lineage.older id index value older old)

/-- The newest write of a history has been walked, if there is one. -/
def Updates.Walked (walked : Std.HashSet Nat) (updates : Updates) : Prop :=
  ∀ id ∈ updates.newest?, id ∈ walked

/--
What the walked writes have written is due, and what is older than a walked write has
been walked, save for a history that is being walked.
-/
def Updates.Covers
    (histories : List Updates)
    (walked : Std.HashSet Nat)
    (due : Expr → Prop)
    (current : Updates → Prop) : Prop :=
  ∀ id index value older, Updates.write id index value older ∈ histories → id ∈ walked →
    due index ∧ due value ∧ (older.Walked walked ∨ current older)

theorem Updates.Walked.mono
    {walked more : Std.HashSet Nat}
    {updates : Updates}
    (isWalked : updates.Walked walked)
    (included : ∀ id ∈ walked, id ∈ more) :
    updates.Walked more :=
  fun id newest => included id (isWalked id newest)

theorem Updates.mem_unwalked_of_mem
    {id : Nat}
    {walked : Std.HashSet Nat}
    (updates : Updates)
    (member : id ∈ walked) :
    id ∈ (updates.unwalked walked).2 := by
  match updates with
  | .root array => exact member
  | .write newest index value older =>
      unfold Updates.unwalked
      split
      · exact member
      · exact Updates.mem_unwalked_of_mem older (Std.HashSet.mem_insert.2 (.inr member))

/-- After a history was walked, its newest write is marked. -/
theorem Updates.walked_unwalked
    (walked : Std.HashSet Nat)
    (updates : Updates) :
    updates.Walked (updates.unwalked walked).2 := by
  intro id isNewest
  match updates with
  | .root array => cases isNewest
  | .write newest index value older =>
      cases isNewest
      unfold Updates.unwalked
      split
      next seen => exact seen
      next => exact Updates.mem_unwalked_of_mem older Std.HashSet.mem_insert_self

/-- Once the history at hand has been walked, there is no exception left. -/
theorem Updates.Covers.settle
    {histories : List Updates}
    {walked : Std.HashSet Nat}
    {due : Expr → Prop}
    {current : Updates}
    (covers : Updates.Covers histories walked due (· = current))
    (isWalked : current.Walked walked) :
    Updates.Covers histories walked due fun _ => False := by
  intro id index value older write member
  obtain ⟨indexDue, valueDue, olderWalked | rfl⟩ := covers id index value older write member
  · exact ⟨indexDue, valueDue, .inl olderWalked⟩
  · exact ⟨indexDue, valueDue, .inl isWalked⟩

theorem Updates.Covers.imp
    {histories : List Updates}
    {walked : Std.HashSet Nat}
    {due dueLater : Expr → Prop}
    {current : Updates → Prop}
    (covers : Updates.Covers histories walked due current)
    (implies : ∀ expression, due expression → dueLater expression) :
    Updates.Covers histories walked dueLater current := by
  intro id index value older write member
  obtain ⟨indexDue, valueDue, olderWalked⟩ := covers id index value older write member
  exact ⟨implies index indexDue, implies value valueDue, olderWalked⟩

/-- A history may be broken off where it has been walked before. -/
theorem Updates.Covers.unwalked
    {histories : List Updates}
    (lineage : Updates.Lineage histories)
    {walked : Std.HashSet Nat}
    {due : Expr → Prop}
    {updates : Updates}
    (made : updates ∈ histories)
    (covers : Updates.Covers histories walked due (· = updates))
    (pairs : ∀ pair ∈ (updates.unwalked walked).1, due pair.1 ∧ due pair.2) :
    Updates.Covers histories (updates.unwalked walked).2 due fun _ => False := by
  match updates with
  | .root array => exact covers.settle (fun _ isNewest => nomatch isNewest)
  | .write newest newIndex newValue below =>
      unfold Updates.unwalked at pairs ⊢
      split
      next seen => exact covers.settle (fun _ isNewest => Option.some.inj isNewest ▸ seen)
      next new =>
          rw [if_neg new, List.forall_mem_cons] at pairs
          refine Updates.Covers.unwalked lineage (lineage.older _ _ _ _ made) ?_ pairs.2
          -- The new write lacks what is below it; all others are as they were.
          intro id index value older write isWalked
          rcases Std.HashSet.mem_insert.1 isWalked with isNewest | before
          · cases beq_iff_eq.1 isNewest
            cases lineage.newest _ write _ made newest rfl rfl
            exact ⟨pairs.1.1, pairs.1.2, .inr rfl⟩
          · obtain ⟨indexDue, valueDue, olderWalked⟩ := covers id index value older write before
            refine ⟨indexDue, valueDue, .inl ?_⟩
            rcases olderWalked with olderWalked | rfl
            · exact olderWalked.mono fun _ member => Std.HashSet.mem_insert.2 (.inr member)
            · rintro _ ⟨⟩
              exact Std.HashSet.mem_insert_self

/-- Walking a history keeps what was covered, if the writes walked are due. -/
theorem Updates.Covers.extend
    {histories : List Updates}
    (lineage : Updates.Lineage histories)
    {walked : Std.HashSet Nat}
    {due : Expr → Prop}
    {updates : Updates}
    (made : updates ∈ histories)
    (covers : Updates.Covers histories walked due fun _ => False)
    (pairs : ∀ pair ∈ (updates.unwalked walked).1, due pair.1 ∧ due pair.2) :
    Updates.Covers histories (updates.unwalked walked).2 due fun _ => False := by
  refine Updates.Covers.unwalked lineage made ?_ pairs
  intro id index value older write member
  obtain ⟨indexDue, valueDue, olderWalked⟩ := covers id index value older write member
  exact ⟨indexDue, valueDue, .inl (olderWalked.resolve_right not_false)⟩

/-- What is older than a walked write is walked, so all that it has written is due. -/
theorem Updates.Covers.written
    {histories : List Updates}
    (lineage : Updates.Lineage histories)
    {walked : Std.HashSet Nat}
    {due : Expr → Prop}
    (covers : Updates.Covers histories walked due fun _ => False)
    (updates : Updates)
    (made : updates ∈ histories)
    (isWalked : updates.Walked walked) :
    ∀ expression ∈ updates.written, due expression := by
  match updates with
  | .root array => simp [Updates.written]
  | .write id index value older =>
      obtain ⟨indexDue, valueDue, olderWalked⟩ :=
        covers id index value older made (isWalked id rfl)
      have below := Updates.Covers.written lineage covers older (lineage.older _ _ _ _ made)
        (olderWalked.resolve_right not_false)
      simpa [Updates.written] using ⟨indexDue, valueDue, below⟩

/-! ## The search for arrays -/

namespace ArraySearch

theorem mem_note
    {wanted : ArrayDecl → Bool}
    {array other : ArrayDecl}
    {found : List ArrayDecl} :
    other ∈ note wanted array found ↔ other ∈ found ∨ other = array ∧ wanted array = true := by
  unfold note
  grind

section

variable {wanted : ArrayDecl → Bool} {search : ArraySearch} {node : Expr}

/-- The hook adds the array of the read that it looks at, if it is wanted. -/
theorem mem_found_hook
    {array : ArrayDecl} :
    array ∈ (hook wanted search node).1.found ↔ array ∈ search.found ∨
      ∃ updates ∈ node.updates?, array = updates.array ∧ wanted updates.array = true := by
  cases node <;> simp [hook, mem_note, Expr.updates?]

theorem broken_hook :
    (hook wanted search node).1.broken = (search.broken || node.lacksHistory) := by
  cases node <;> simp [hook, Expr.lacksHistory]

theorem mem_walked_hook
    {id : Nat}
    (member : id ∈ search.walked) :
    id ∈ (hook wanted search node).1.walked := by
  cases node with
  | read tag updates index => exact Updates.mem_unwalked_of_mem updates member
  | _ => exact member

/-- The hook walks the history of the read that it looks at. -/
theorem walked_hook
    {updates : Updates}
    (isRead : updates ∈ node.updates?) :
    updates.Walked (hook wanted search node).1.walked := by
  cases node <;> cases isRead
  exact updates.walked_unwalked _

/-- What a node has written and was not walked before is among its extras. -/
theorem covers_hook
    {histories : List Updates}
    (lineage : Updates.Lineage histories)
    {due : Expr → Prop}
    (made : ∀ updates ∈ node.updates?, updates ∈ histories)
    (covers : Updates.Covers histories search.walked due fun _ => False)
    (extras : ∀ extra ∈ (hook wanted search node).2, due extra) :
    Updates.Covers histories (hook wanted search node).1.walked due fun _ => False := by
  cases node with
  | read tag updates index =>
      refine covers.extend lineage (made updates rfl) fun pair unwalked => ?_
      have among (extra : Expr) (which : extra ∈ [pair.2, pair.1]) : due extra :=
        extras extra (List.mem_flatMap.2 ⟨pair, unwalked, which⟩)
      exact ⟨among pair.1 (by simp), among pair.2 (by simp)⟩
  | _ => exact covers

end

/--
What has been seen so far misses nothing that is not due: operands of nodes seen, arrays
of reads seen, and what the walked writes have written.
-/
structure Complete
    (wanted : ArrayDecl → Bool)
    (histories : List Updates)
    (nodes : List Expr)
    (visited : Visited ArraySearch)
    (stack : List Expr) : Prop where
  kids : ∀ node ∈ nodes, node.id ∈ visited.seen →
    ∀ kid ∈ node.kids, visited.Reaches stack kid
  found : ∀ node ∈ nodes, node.id ∈ visited.seen → ∀ updates ∈ node.updates?,
    wanted updates.array = true → updates.array ∈ visited.state.found
  walked : ∀ node ∈ nodes, node.id ∈ visited.seen → ∀ updates ∈ node.updates?,
    updates.Walked visited.state.walked
  covers : Updates.Covers histories visited.state.walked (visited.Reaches stack)
    fun _ => False
  broken : visited.state.broken = false

section

variable
  {wanted : ArrayDecl → Bool}
  {histories : List Updates}
  {table : Table}
  {roots : List Expr}

theorem registered_of_mem_partsEach
    (registered : ∀ root ∈ roots, root.Registered histories table)
    {node : Expr}
    (inside : node ∈ partsEach roots) :
    node.Registered histories table := by
  obtain ⟨root, isRoot, isPart⟩ := mem_partsEach.1 inside
  exact (registered root isRoot).part isPart

/-- Before anything is seen, nothing is missed. -/
theorem complete_start
    {nodes : List Expr} :
    Complete wanted histories nodes { seen := ∅, state := {} } [] := by
  constructor <;> simp [Updates.Covers]

/-- A search that has come to an end may take up another root. -/
theorem Complete.push
    {nodes : List Expr}
    {visited : Visited ArraySearch}
    (complete : Complete wanted histories nodes visited [])
    (root : Expr) :
    Complete wanted histories nodes visited [root] := {
  complete with
  kids := fun node isPart seen kid isKid =>
    (complete.kids node isPart seen kid isKid).of_nil _
  covers := complete.covers.imp fun _ reaches => reaches.of_nil _ }

/-- Entering a node keeps a search complete. -/
theorem Complete.enter
    (supports : table.Supports histories)
    (lineage : Updates.Lineage histories)
    (registered : ∀ root ∈ roots, root.Registered histories table)
    {visited : Visited ArraySearch}
    {node : Expr}
    {rest : List Expr}
    (inside : node ∈ partsEach roots)
    (complete : Complete wanted histories (partsEach roots) visited (node :: rest)) :
    Complete wanted histories (partsEach roots)
      (visited.enter (hook wanted) node) (visited.onward (hook wanted) node rest) := by
  have nodeRegistered := registered_of_mem_partsEach registered inside
  have nodeOrSeen (other : Expr) (isPart : other ∈ partsEach roots)
      (seen : other.id ∈ (visited.enter (hook wanted) node).seen) :
      other = node ∨ other.id ∈ visited.seen := by
    rcases Std.HashSet.mem_insert.1 seen with same | before
    · exact .inl (Expr.Registered.eq_of_id_eq supports node nodeRegistered
        (registered_of_mem_partsEach registered isPart) (beq_iff_eq.1 same)).symm
    · exact .inr before
  have kids (other : Expr) (isPart : other ∈ partsEach roots)
      (seen : other.id ∈ (visited.enter (hook wanted) node).seen)
      (kid : Expr) (isKid : kid ∈ other.kids) :
      (visited.enter (hook wanted) node).Reaches (visited.onward (hook wanted) node rest) kid := by
    rcases nodeOrSeen other isPart seen with rfl | before
    · exact .inr (List.mem_append_left _ (List.mem_append_left _ isKid))
    · exact (complete.kids other isPart before kid isKid).enter
  refine ⟨kids, ?_, ?_, ?_, ?_⟩
  · intro other isPart seen updates isRead want
    refine mem_found_hook.2 ?_
    rcases nodeOrSeen other isPart seen with rfl | before
    · exact .inr ⟨updates, isRead, rfl, want⟩
    · exact .inl (complete.found other isPart before updates isRead want)
  · intro other isPart seen updates isRead
    rcases nodeOrSeen other isPart seen with rfl | before
    · exact walked_hook isRead
    · exact (complete.walked other isPart before updates isRead).mono
        fun _ => mem_walked_hook
  · refine covers_hook lineage nodeRegistered.self.history
      (complete.covers.imp fun _ => Visited.Reaches.enter) ?_
    intro extra member
    exact .inr (List.mem_append_left _ (List.mem_append_right _ (List.mem_reverse.2 member)))
  · have hasHistory : node.lacksHistory = false :=
      nodeRegistered.self.proper.measured.lacksHistory_eq_false
    exact broken_hook.trans (by rw [complete.broken, hasHistory]; rfl)

/-- Each step of the search keeps it complete. -/
theorem Complete.keeps
    (supports : table.Supports histories)
    (lineage : Updates.Lineage histories)
    (registered : ∀ root ∈ roots, root.Registered histories table) :
    (Region.ofParts (hook wanted) roots (hook_fromHistory wanted)).Keeps
      (Complete wanted histories (partsEach roots)) where
  skip _ _ _ seen complete := {
    complete with
    kids := fun node isPart before kid isKid =>
      (complete.kids node isPart before kid isKid).skip seen
    covers := complete.covers.imp fun _ reaches => reaches.skip seen }
  enter _ _ _ inside _ complete := complete.enter supports lineage registered inside

/-- When nothing is left to enter, what stands next to a node seen has been seen. -/
theorem Complete.neighbour_seen
    (lineage : Updates.Lineage histories)
    (registered : ∀ root ∈ roots, root.Registered histories table)
    {visited : Visited ArraySearch}
    {node next : Expr}
    (complete : Complete wanted histories (partsEach roots) visited [])
    (inside : node ∈ partsEach roots)
    (seen : node.id ∈ visited.seen)
    (isNext : next ∈ node.neighbours) :
    next.id ∈ visited.seen := by
  have reaches : visited.Reaches [] next := by
    rcases List.mem_append.1 isNext with isKid | isWritten
    · exact complete.kids node inside seen next isKid
    · cases node <;> try exact absurd isWritten List.not_mem_nil
      have made := (registered_of_mem_partsEach registered inside).self.history _ rfl
      exact complete.covers.written lineage _ made (complete.walked _ inside seen _ rfl)
        next isWritten
  exact reaches.resolve_right List.not_mem_nil

/-- When nothing is left to enter and the roots were seen, all parts have been seen. -/
theorem Complete.mem_seen
    (lineage : Updates.Lineage histories)
    (registered : ∀ root ∈ roots, root.Registered histories table)
    {visited : Visited ArraySearch}
    (complete : Complete wanted histories (partsEach roots) visited [])
    (rootsSeen : ∀ root ∈ roots, root.id ∈ visited.seen) :
    ∀ node ∈ partsEach roots, node.id ∈ visited.seen := by
  have passed (node : Expr) (seen : node ∈ partsEach roots ∧ node.id ∈ visited.seen)
      (next : Expr) (isNext : next ∈ node.neighbours) :
      next ∈ partsEach roots ∧ next.id ∈ visited.seen :=
    ⟨partsEach_closed isNext roots seen.1,
      complete.neighbour_seen lineage registered seen.1 seen.2 isNext⟩
  have start (root : Expr) (isRoot : root ∈ roots) :
      root ∈ partsEach roots ∧ root.id ∈ visited.seen :=
    ⟨mem_partsEach_of_mem isRoot, rootsSeen root isRoot⟩
  exact fun node inside => (forall_mem_partsEach passed roots start node inside).2

/-- An array that is wanted and stands below a read among some nodes. -/
def IsRead (wanted : ArrayDecl → Bool) (nodes : List Expr) (array : ArrayDecl) : Prop :=
  ∃ node ∈ nodes, ∃ updates ∈ node.updates?,
    array = updates.array ∧ wanted updates.array = true

/-- What a search finds is read somewhere. -/
theorem isRead_of_mem_found_run :
    ∀ array ∈ (run wanted roots).found, IsRead wanted (partsEach roots) array := by
  have keeps : (Region.ofParts (hook wanted) roots (hook_fromHistory wanted)).Keeps
      fun visited _ => ∀ array ∈ visited.state.found, IsRead wanted (partsEach roots) array := by
    refine ⟨fun _ _ _ _ isRead => isRead, ?_⟩
    intro visited node rest inside _ isRead array member
    rcases mem_found_hook.1 member with before | ⟨updates, reads, here⟩
    · exact isRead array before
    · exact ⟨node, inside, updates, reads, here⟩
  exact keeps.walkAll (fun _ _ isRead => isRead) _ (fun _ member => nomatch member)

/-- A search breaks only at a node that was put together by hand. -/
theorem unbroken_run
    (measured : ∀ node ∈ partsEach roots, node.Measured) :
    (run wanted roots).broken = false := by
  have keeps : (Region.ofParts (hook wanted) roots (hook_fromHistory wanted)).Keeps
      fun visited _ => visited.state.broken = false := by
    refine ⟨fun _ _ _ _ unbroken => unbroken, ?_⟩
    intro visited node rest inside _ unbroken
    exact broken_hook.trans (by rw [unbroken, (measured node inside).lacksHistory_eq_false]; rfl)
  exact keeps.walkAll (fun _ _ unbroken => unbroken) _ rfl

/-- A search meets no read without a history, and finds the wanted arrays of all reads. -/
theorem mem_found_run
    (supports : table.Supports histories)
    (lineage : Updates.Lineage histories)
    (registered : ∀ root ∈ roots, root.Registered histories table) :
    (run wanted roots).broken = false ∧
      ∀ array, array ∈ (run wanted roots).found ↔ IsRead wanted (partsEach roots) array := by
  have complete : Complete wanted histories (partsEach roots)
      (walkParts (hook wanted) (hook_fromHistory wanted) {} roots) [] :=
    (Complete.keeps supports lineage registered).walkAll
      (fun _ root complete => complete.push root) _ complete_start
  have allSeen := complete.mem_seen lineage registered fun root isRoot =>
    mem_seen_walkAll _ isRoot
  refine ⟨complete.broken, fun array => ⟨isRead_of_mem_found_run array, ?_⟩⟩
  rintro ⟨node, inside, updates, reads, rfl, want⟩
  exact complete.found node inside (allSeen node inside) updates reads want

end

end ArraySearch

end Diverge
