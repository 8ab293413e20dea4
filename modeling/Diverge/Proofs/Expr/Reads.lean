import Diverge.Expr.Reads
import Diverge.Proofs.Expr.Dependence

/-!
# The reads that an expression leads to

A search marks a node when it puts it on the stack, and breaks a history off where it
has walked before.  Nothing is lost by either: what a marked node leads to is marked as
well once the stack is empty (`ReadSearch.Progress`), so the search lists every read that
the expression leads to, and no read twice (`Workshop.reads_exact`).  The searches for
arrays walk the same parts in another order, and come to the arrays of the same reads
(`Workshop.arrays_of_reads`).
-/

namespace Diverge

/--
The nodes that an expression leads to, through operands and, with `histories`, also through
the indices and values written in the histories of reads.
-/
inductive Expr.LeadsTo (histories : Bool) (root : Expr) : Expr → Prop where
  | self : LeadsTo histories root root
  | kid
      {node kid : Expr}
      (leads : LeadsTo histories root node)
      (isKid : kid ∈ node.kids) :
      LeadsTo histories root kid
  | written
      {node next : Expr}
      (wanted : histories = true)
      (leads : LeadsTo histories root node)
      (isWritten : next ∈ node.written) :
      LeadsTo histories root next

/-- Whatever an expression leads to is part of it. -/
theorem Expr.LeadsTo.mem_parts
    {histories : Bool}
    {root node : Expr}
    (leads : root.LeadsTo histories node) :
    node ∈ root.parts := by
  induction leads with
  | self => exact root.self_mem_parts
  | kid _ isKid inductionHypothesis =>
      exact Expr.parts_closed (List.mem_append_left _ isKid) root inductionHypothesis
  | written _ _ isWritten inductionHypothesis =>
      exact Expr.parts_closed (List.mem_append_right _ isWritten) root inductionHypothesis

/-- With histories, an expression leads to all its parts. -/
theorem Expr.leadsTo_true_iff
    {root node : Expr} :
    root.LeadsTo true node ↔ node ∈ root.parts := by
  constructor
  · exact Expr.LeadsTo.mem_parts
  · refine Expr.forall_mem_parts (fun node leads next isNext => ?_) root .self node
    rcases List.mem_append.1 isNext with isKid | isWritten
    · exact .kid leads isKid
    · exact .written rfl leads isWritten

namespace ReadSearch

/-! ## The stack -/

/-- A node that is never put on the stack again. -/
def Agenda.Met (agenda : Agenda) (node : Expr) : Prop :=
  node.isConstant = true ∨ node.id ∈ agenda.marked

/-- What putting nodes on the stack does: those that were not met before are `new`. -/
structure Agenda.Pushed
    (nodes new : List Expr)
    (before after : Agenda) : Prop where
  stack : after.stack = new ++ before.stack
  marked : ∀ id, id ∈ after.marked ↔ id ∈ before.marked ∨ ∃ node ∈ new, node.id = id
  fresh : ∀ node ∈ new, node ∈ nodes ∧ node.id ∉ before.marked
  distinct : (new.map Expr.id).Nodup
  met : ∀ node ∈ nodes, after.Met node

theorem Agenda.Met.mono
    {before after : Agenda}
    (included : ∀ id ∈ before.marked, id ∈ after.marked)
    {node : Expr}
    (met : before.Met node) :
    after.Met node :=
  met.imp_right (included node.id)

/-- A node that was met before is not pushed again. -/
theorem Agenda.push_of_met
    {agenda : Agenda}
    {node : Expr}
    (met : agenda.Met node) :
    agenda.push node = agenda := by
  unfold Agenda.push
  rw [if_pos]
  simpa [Agenda.Met] using met

theorem Agenda.push_of_not_met
    {agenda : Agenda}
    {node : Expr}
    (new : ¬ agenda.Met node) :
    agenda.push node =
      { stack := node :: agenda.stack, marked := agenda.marked.insert node.id } := by
  unfold Agenda.push
  rw [if_neg]
  simpa [Agenda.Met] using new

/-- Pushing nodes puts those on the stack that were not met, each once. -/
theorem Agenda.pushed
    (nodes : List Expr)
    (agenda : Agenda) :
    ∃ new, Agenda.Pushed nodes new agenda (nodes.foldl Agenda.push agenda) := by
  induction nodes generalizing agenda with
  | nil => exact ⟨[], rfl, by simp, by simp, .nil, by simp⟩
  | cons node rest inductionHypothesis =>
      rw [List.foldl_cons]
      obtain ⟨new, later⟩ := inductionHypothesis (agenda.push node)
      by_cases met : agenda.Met node
      · rw [Agenda.push_of_met met] at later ⊢
        refine ⟨new, later.stack, later.marked, ?_, later.distinct, ?_⟩
        · exact fun other isNew =>
            ⟨List.mem_cons_of_mem _ (later.fresh other isNew).1, (later.fresh other isNew).2⟩
        · refine List.forall_mem_cons.2 ⟨met.mono fun id before => ?_, later.met⟩
          exact (later.marked id).2 (.inl before)
      · have unmarked : node.id ∉ agenda.marked := fun marked => met (.inr marked)
        rw [Agenda.push_of_not_met met] at later ⊢
        have apart : ∀ other ∈ new, other.id ≠ node.id ∧ other.id ∉ agenda.marked := by
          intro other isNew
          have fresh := (later.fresh other isNew).2
          rw [Std.HashSet.mem_insert, beq_iff_eq, not_or] at fresh
          exact ⟨Ne.symm fresh.1, fresh.2⟩
        refine ⟨new ++ [node], ?_, ?_, ?_, ?_, ?_⟩
        · rw [later.stack, List.append_assoc]
          rfl
        · intro id
          rw [later.marked id, Std.HashSet.mem_insert, beq_iff_eq]
          simp only [List.mem_append, List.mem_singleton, or_and_right, exists_or,
            exists_eq_left, or_assoc, or_comm]
        · intro other isNew
          rcases List.mem_append.1 isNew with isLater | isNode
          · exact ⟨List.mem_cons_of_mem _ (later.fresh other isLater).1,
              (apart other isLater).2⟩
          · cases List.mem_singleton.1 isNode
            exact ⟨List.mem_cons_self, unmarked⟩
        · rw [List.map_append, List.nodup_append]
          refine ⟨later.distinct, List.nodup_singleton _, ?_⟩
          intro id isNew other isNode
          obtain ⟨newer, member, rfl⟩ := List.mem_map.1 isNew
          cases List.mem_singleton.1 isNode
          exact (apart newer member).1
        · refine List.forall_mem_cons.2 ⟨.inr ((later.marked _).2 (.inl ?_)), later.met⟩
          exact Std.HashSet.mem_insert_self

/-- A node moves from the stack to a list, or is dropped, and the new ones come to it. -/
theorem Agenda.Pushed.subperm
    {nodes new rest listed longer : List Expr}
    {node : Expr}
    {marked : Std.HashSet Nat}
    {after : Agenda}
    (pushed : Agenda.Pushed nodes new ⟨rest, marked⟩ after)
    (among : longer.Sublist (listed ++ [node])) :
    (longer ++ after.stack).Subperm (new ++ (listed ++ node :: rest)) := by
  rw [pushed.stack]
  refine (among.append_right _).subperm.trans (List.Perm.subperm ?_)
  simpa using List.perm_append_comm_assoc (listed ++ [node]) new rest

/-! ## What is looked at after a node -/

/-- What the nodes to look at after a node, and the writes walked by then, have to be. -/
structure Onward
    (histories : Bool)
    (walked : Std.HashSet Nat)
    (node : Expr)
    (next : List Expr × Std.HashSet Nat) : Prop where
  kids : ∀ kid ∈ node.kids, kid ∈ next.1
  only : ∀ other ∈ next.1, other ∈ node.kids ∨ histories = true ∧ other ∈ node.written
  keeps : ∀ id ∈ walked, id ∈ next.2
  history : histories = true → ∀ updates ∈ node.updates?, updates.Walked next.2
  covers : ∀ {made : List Updates} {due : Expr → Prop}, Updates.Lineage made →
    (∀ updates ∈ node.updates?, updates ∈ made) →
      Updates.Covers made walked due (fun _ => False) → (∀ other ∈ next.1, due other) →
        Updates.Covers made next.2 due fun _ => False

section

variable {histories : Bool} {walked : Std.HashSet Nat}

theorem mem_written_of_mem_pending
    {updates : Updates}
    {next : Expr}
    (member : next ∈ pending walked updates) :
    next ∈ updates.written := by
  obtain ⟨⟨index, value⟩, unwalked, which⟩ := List.mem_flatMap.1 member
  obtain ⟨isIndex, isValue⟩ := updates.mem_written_of_mem_unwalked walked unwalked
  simp only [List.mem_cons, List.not_mem_nil, or_false] at which
  rcases which with rfl | rfl
  · exact isIndex
  · exact isValue

/-- Without a history to look at, the walk goes on to the operands. -/
theorem Onward.operands
    {node : Expr}
    (without : node.updates? = none ∨ histories = false) :
    Onward histories walked node (node.kids, walked) where
  kids _ isKid := isKid
  only _ isKid := .inl isKid
  keeps _ member := member
  history wanted updates isRead := by
    rcases without with unread | unwanted
    · rw [unread] at isRead
      cases isRead
    · rw [unwanted] at wanted
      cases wanted
  covers _ _ covers _ := covers

/-- At a read the walk goes on to the index and to the writes that it has not walked. -/
theorem Onward.writes
    (tag : Tag)
    (updates : Updates)
    (index : Expr) :
    Onward true walked (.read tag updates index)
      (index :: pending walked updates, (updates.unwalked walked).2) where
  kids _ isKid := by
    cases List.mem_singleton.1 isKid
    exact List.mem_cons_self
  only other member := by
    rcases List.mem_cons.1 member with rfl | isPending
    · exact .inl (List.mem_singleton.2 rfl)
    · exact .inr ⟨rfl, mem_written_of_mem_pending isPending⟩
  keeps _ member := updates.mem_unwalked_of_mem member
  history _ _ isRead := by
    cases isRead
    exact updates.walked_unwalked walked
  covers lineage made covers due := by
    refine covers.extend lineage (made updates rfl) fun pair unwalked => ?_
    have among (other : Expr) (which : other ∈ [pair.1, pair.2]) :=
      due other (List.mem_cons_of_mem _ (List.mem_flatMap.2 ⟨pair, unwalked, which⟩))
    exact ⟨among pair.1 (by simp), among pair.2 (by simp)⟩

/-- The walk goes only where the root leads. -/
theorem Onward.leadsTo
    {root node : Expr}
    {next : List Expr × Std.HashSet Nat}
    (onward : Onward histories walked node next)
    (leads : root.LeadsTo histories node)
    {other : Expr}
    (member : other ∈ next.1) :
    root.LeadsTo histories other := by
  rcases onward.only other member with isKid | ⟨wanted, isWritten⟩
  · exact .kid leads isKid
  · exact .written wanted leads isWritten

/-- A node that a constructor made is always followed by what it has to be. -/
theorem onward_successors
    (histories : Bool)
    (walked : Std.HashSet Nat)
    {node : Expr}
    (measured : node.Measured) :
    ∃ next, successors histories walked node = .ok next ∧
      Onward histories walked node next := by
  cases node with
  | read tag updates index =>
      cases histories with
      | false => exact ⟨_, rfl, .operands (.inr rfl)⟩
      | true => exact ⟨_, rfl, .writes tag updates index⟩
  | loose tag kind value kids => exact measured.elim
  | _ => exact ⟨_, rfl, .operands (.inl rfl)⟩

end

/-! ## The search -/

/-- What a node leads to in one step has been met, and the node is listed if it is a read. -/
structure Handled
    (histories : Bool)
    (agenda : Agenda)
    (walked : Std.HashSet Nat)
    (reads : List Expr)
    (node : Expr) : Prop where
  kids : ∀ kid ∈ node.kids, agenda.Met kid
  history : histories = true → ∀ updates ∈ node.updates?, updates.Walked walked
  listed : node.kind? = some .read → node ∈ reads

/-- What holds while the stack is worked off; `made` are the histories there are. -/
structure Progress
    (histories : Bool)
    (made : List Updates)
    (root : Expr)
    (agenda : Agenda)
    (walked : Std.HashSet Nat)
    (reads : List Expr) : Prop where
  started : agenda.Met root
  inside : ∀ node ∈ agenda.stack, root.LeadsTo histories node
  listed : ∀ node ∈ reads, node.kind? = some .read ∧ root.LeadsTo histories node
  distinct : ((reads ++ agenda.stack).map Expr.id).Nodup
  marked : ∀ node ∈ reads ++ agenda.stack, node.id ∈ agenda.marked
  handled : ∀ node, root.LeadsTo histories node → node.id ∈ agenda.marked →
    node ∈ agenda.stack ∨ Handled histories agenda walked reads node
  covers : Updates.Covers made walked agenda.Met fun _ => False

section

variable
  {histories : Bool}
  {made : List Updates}
  {table : Table}
  {root : Expr}

/-- A node that was dealt with stays dealt with as the agenda and the list grow. -/
theorem Handled.mono
    {before after : Agenda}
    {walked more : Std.HashSet Nat}
    {reads longer : List Expr}
    {node : Expr}
    (handled : Handled histories before walked reads node)
    (marked : ∀ id ∈ before.marked, id ∈ after.marked)
    (walks : ∀ id ∈ walked, id ∈ more)
    (lists : ∀ read ∈ reads, read ∈ longer) :
    Handled histories after more longer node where
  kids kid isKid := (handled.kids kid isKid).mono marked
  history wanted updates isRead := (handled.history wanted updates isRead).mono walks
  listed isRead := lists node (handled.listed isRead)

/-- Taking one node from the stack keeps the progress. -/
theorem Progress.step
    (supports : table.Supports made)
    (lineage : Updates.Lineage made)
    (registered : root.Registered made table)
    {node : Expr}
    {rest : List Expr}
    {marked walked : Std.HashSet Nat}
    {reads longer : List Expr}
    (progress : Progress histories made root ⟨node :: rest, marked⟩ walked reads)
    {next : List Expr × Std.HashSet Nat}
    (onward : Onward histories walked node next)
    (lists : longer = if node.kind? = some .read then reads ++ [node] else reads) :
    Progress histories made root (next.1.foldl Agenda.push ⟨rest, marked⟩) next.2 longer := by
  obtain ⟨new, pushed⟩ := Agenda.pushed next.1 ⟨rest, marked⟩
  generalize next.1.foldl Agenda.push ⟨rest, marked⟩ = after at pushed ⊢
  have leads := progress.inside node List.mem_cons_self
  have isKnown {other : Expr} (leadsToo : root.LeadsTo histories other) :
      other.Registered made table :=
    registered.part leadsToo.mem_parts
  have grown (id : Nat) (before : id ∈ marked) : id ∈ after.marked :=
    (pushed.marked id).2 (.inl before)
  have kept (read : Expr) (before : read ∈ reads) : read ∈ longer := by
    rw [lists]
    split
    · exact List.mem_append_left _ before
    · exact before
  have ordered : (longer ++ after.stack).Subperm (new ++ (reads ++ node :: rest)) := by
    refine pushed.subperm ?_
    rw [lists]
    split
    · exact .refl _
    · exact List.sublist_append_left _ _
  have distinct : ((new ++ (reads ++ node :: rest)).map Expr.id).Nodup := by
    rw [List.map_append, List.nodup_append]
    refine ⟨pushed.distinct, progress.distinct, ?_⟩
    intro id isNew other isOld same
    obtain ⟨newer, member, rfl⟩ := List.mem_map.1 isNew
    obtain ⟨older, memberToo, rfl⟩ := List.mem_map.1 isOld
    exact (pushed.fresh newer member).2 (same ▸ progress.marked older memberToo)
  constructor
  case started => exact progress.started.mono grown
  case inside =>
    rw [pushed.stack, List.forall_mem_append]
    constructor
    · exact fun other isNew => onward.leadsTo leads (pushed.fresh other isNew).1
    · exact fun other isRest => progress.inside other (List.mem_cons_of_mem _ isRest)
  case listed =>
    intro read isListed
    rw [lists] at isListed
    split at isListed
    next isRead =>
      rcases List.mem_append.1 isListed with before | isNode
      · exact progress.listed read before
      · cases List.mem_singleton.1 isNode
        exact ⟨isRead, leads⟩
    next => exact progress.listed read isListed
  case distinct =>
    obtain ⟨_, permuted, sublist⟩ := ordered
    exact (permuted.map Expr.id).nodup_iff.1 (distinct.sublist (sublist.map Expr.id))
  case marked =>
    intro other member
    rw [pushed.marked]
    rcases List.mem_append.1 (ordered.subset member) with isNew | before
    · exact .inr ⟨other, isNew, rfl⟩
    · exact .inl (progress.marked other before)
  case handled =>
    intro other leadsToo isMarked
    rcases (pushed.marked other.id).1 isMarked with before | ⟨newer, isNew, same⟩
    · rcases progress.handled other leadsToo before with onStack | handled
      · rcases List.mem_cons.1 onStack with rfl | isRest
        · right
          refine ⟨fun kid isKid => pushed.met kid (onward.kids kid isKid), onward.history, ?_⟩
          intro isRead
          rw [lists, if_pos isRead]
          exact List.mem_append_right _ (List.mem_singleton_self _)
        · rw [pushed.stack]
          exact .inl (List.mem_append_right _ isRest)
      · exact .inr (handled.mono grown onward.keeps kept)
    · -- Identities tell the nodes apart, so the one that was marked is this one.
      cases Expr.Registered.eq_of_id_eq supports newer
        (isKnown (onward.leadsTo leads (pushed.fresh newer isNew).1)) (isKnown leadsToo) same
      rw [pushed.stack]
      exact .inl (List.mem_append_left _ isNew)
  case covers =>
    exact onward.covers lineage (isKnown leads).self.history
      (progress.covers.imp fun _ met => met.mono grown) pushed.met

/-- Every search comes to an end, and what held along the way still holds. -/
theorem Progress.run
    (supports : table.Supports made)
    (lineage : Updates.Lineage made)
    (registered : root.Registered made table)
    {agenda : Agenda}
    {walked : Std.HashSet Nat}
    {reads : Array Expr}
    (progress : Progress histories made root agenda walked reads.toList) :
    ∃ found marked last, run histories agenda walked reads = .ok found ∧
      Progress histories made root ⟨[], marked⟩ last found := by
  have follows {node : Expr} {rest : List Expr} {marked walked : Std.HashSet Nat}
      {reads : List Expr}
      (progress : Progress histories made root ⟨node :: rest, marked⟩ walked reads) :
      ∃ next, successors histories walked node = .ok next ∧
        Onward histories walked node next :=
    onward_successors histories walked
      (registered.part (progress.inside node List.mem_cons_self).mem_parts).self.proper.measured
  induction agenda, walked, reads using run.induct histories with
  | case1 marked walked reads =>
      rw [ReadSearch.run]
      exact ⟨_, _, _, rfl, progress⟩
  | case2 node rest marked walked reads fault refused =>
      obtain ⟨next, found, _⟩ := follows progress
      rw [refused] at found
      cases found
  | case3 node rest marked walked reads next found _ inductionHypothesis =>
      obtain ⟨_, foundToo, onward⟩ := follows progress
      cases found.symm.trans foundToo
      rw [ReadSearch.run]
      split
      next refused =>
        rw [refused] at found
        cases found
      next same =>
        cases same.symm.trans found
        refine inductionHypothesis (progress.step supports lineage registered onward ?_)
        split
        · exact Array.toList_push
        · rfl

/-- At the start the expression itself is all that is on the stack, if anything is. -/
theorem Progress.start
    (supports : table.Supports made)
    (registered : root.Registered made table) :
    Progress histories made root (Agenda.push ⟨[], ∅⟩ root) ∅ [] := by
  obtain ⟨new, pushed⟩ := Agenda.pushed [root] ⟨[], ∅⟩
  rw [List.foldl_cons, List.foldl_nil] at pushed
  generalize Agenda.push ⟨[], ∅⟩ root = agenda at pushed ⊢
  have stack : agenda.stack = new := pushed.stack.trans (List.append_nil new)
  have isRoot (node : Expr) (isNew : node ∈ new) : node = root :=
    List.mem_singleton.1 (pushed.fresh node isNew).1
  constructor
  case started => exact pushed.met root (List.mem_singleton_self _)
  case inside =>
    rw [stack]
    exact fun node isNew => isRoot node isNew ▸ .self
  case listed => exact fun node isListed => nomatch isListed
  case distinct =>
    rw [List.nil_append, stack]
    exact pushed.distinct
  case marked =>
    rw [List.nil_append, stack]
    exact fun node isNew => (pushed.marked node.id).2 (.inr ⟨node, isNew, rfl⟩)
  case handled =>
    intro node leads isMarked
    rcases (pushed.marked node.id).1 isMarked with before | ⟨newer, isNew, same⟩
    · exact absurd before Std.HashSet.not_mem_empty
    · cases isRoot newer isNew
      cases Expr.Registered.eq_of_id_eq supports root registered
        (registered.part leads.mem_parts) same
      exact .inl (stack ▸ isNew)
  case covers => exact fun _ _ _ _ _ isWalked => absurd isWalked Std.HashSet.not_mem_empty

/-- When the stack is empty, what is met and leads on has been handled. -/
theorem Progress.handled_of_met
    (registered : root.Registered made table)
    {marked walked : Std.HashSet Nat}
    {reads : List Expr}
    (progress : Progress histories made root ⟨[], marked⟩ walked reads)
    {node : Expr}
    (leads : root.LeadsTo histories node)
    (met : Agenda.Met ⟨[], marked⟩ node) :
    (∃ tag value, node = .const tag value) ∨
      Handled histories ⟨[], marked⟩ walked reads node := by
  rcases met with constant | isMarked
  · have measured := (registered.part leads.mem_parts).self.proper.measured
    exact .inl (Expr.eq_const_of_isConstant measured constant)
  · exact .inr ((progress.handled node leads isMarked).resolve_left List.not_mem_nil)

/-- When the stack is empty, all that the expression leads to has been met. -/
theorem Progress.met
    (lineage : Updates.Lineage made)
    (registered : root.Registered made table)
    {marked walked : Std.HashSet Nat}
    {reads : List Expr}
    (progress : Progress histories made root ⟨[], marked⟩ walked reads)
    {node : Expr}
    (leads : root.LeadsTo histories node) :
    Agenda.Met ⟨[], marked⟩ node := by
  induction leads with
  | self => exact progress.started
  | @kid node kid leads isKid inductionHypothesis =>
      rcases progress.handled_of_met registered leads inductionHypothesis with
        ⟨tag, value, rfl⟩ | handled
      · exact absurd isKid List.not_mem_nil
      · exact handled.kids kid isKid
  | @written node next wanted leads isWritten inductionHypothesis =>
      rcases progress.handled_of_met registered leads inductionHypothesis with
        ⟨tag, value, rfl⟩ | handled
      · exact absurd isWritten List.not_mem_nil
      · cases node <;> try exact absurd isWritten List.not_mem_nil
        have made := (registered.part leads.mem_parts).self.history _ rfl
        exact progress.covers.written lineage _ made (handled.history wanted _ rfl)
          next isWritten

end

end ReadSearch

/-- The search for reads ends with a list, and the list has every read just once. -/
theorem Expr.reads_spec
    {made : List Updates}
    {table : Table}
    (supports : table.Supports made)
    (lineage : Updates.Lineage made)
    {expression : Expr}
    (registered : expression.Registered made table)
    (histories : Bool) :
    ∃ reads, expression.reads histories = .ok reads ∧ (reads.map Expr.id).Nodup ∧
      ∀ node, node ∈ reads ↔
        node.kind? = some .read ∧ expression.LeadsTo histories node := by
  have start : ReadSearch.Progress histories made expression _ ∅ #[].toList :=
    .start supports registered
  obtain ⟨reads, marked, walked, ran, progress⟩ := start.run supports lineage registered
  refine ⟨reads, ran, ?_, fun node => ⟨progress.listed node, ?_⟩⟩
  · simpa using progress.distinct
  · rintro ⟨isRead, leads⟩
    have met := progress.met lineage registered leads
    rcases progress.handled_of_met registered leads met with ⟨tag, value, rfl⟩ | handled
    · cases isRead
    · exact handled.listed isRead

namespace Workshop

/--
The search for the reads of an expression ends with a list of them.  The list has no node
twice, and its members are the reads that the expression leads to through operands and, with
`histories`, also through the indices and values of the writes below the reads.
-/
theorem reads_exact
    {workshop : Workshop}
    (reached : workshop.Reachable)
    {expression : Expr}
    (built : expression ∈ workshop.expressions)
    (histories : Bool) :
    ∃ reads, expression.reads histories = .ok reads ∧ (reads.map Expr.id).Nodup ∧
      ∀ node, node ∈ reads ↔
        node.kind? = some .read ∧ expression.LeadsTo histories node :=
  Expr.reads_spec reached.sound.supports reached.lineage
    (reached.sound.registered expression built) histories

end Workshop

namespace TableByte

def first : ArrayDecl := ⟨0, "a", 4, none, 32, 8⟩

def second : ArrayDecl := ⟨1, "b", 4, none, 32, 8⟩

/-- An array with known values. -/
def table : ArrayDecl := ⟨2, "t", 4, some [7, 8, 9, 10], 32, 8⟩

def zero : Expr := .const ⟨3, 32, false⟩ 0

def byte : Expr := .read ⟨4, 8, false⟩ (.root first) zero

def index : Expr := .zext ⟨5, 32, false⟩ byte

/-- A byte that is read only to be written over the table. -/
def stored : Expr := .read ⟨6, 8, false⟩ (.root second) zero

def written : Updates := .write 7 zero stored (.root table)

def lookup : Expr := .read ⟨8, 8, false⟩ written index

def arrays : Workshop :=
  ((Workshop.declare {} "a" 4 none 32 8).declare "b" 4 none 32 8).declare
    "t" 4 (some [7, 8, 9, 10]) 32 8

def operands : Workshop :=
  [.constant 0 32, .read (.root first) zero false, .zext byte 32 false,
    .read (.root second) zero false].foldl Workshop.construct arrays

def workshop : Workshop :=
  (operands.write (.root table) zero stored).construct (.read written index false)

theorem expressions_operands : operands.expressions = [stored, index, byte, zero] := rfl

theorem expressions_workshop :
    workshop.expressions = [lookup, stored, index, byte, zero] := rfl

theorem reachable : workshop.Reachable := by
  have declared : arrays.Reachable :=
    ((Relation.ReflTransGen.single (.declare "a" 4 none 32 8)).tail
      (.declare "b" 4 none 32 8)).tail (.declare "t" 4 (some [7, 8, 9, 10]) 32 8)
  have built : operands.Reachable := by
    refine Workshop.Reachable.foldl_construct declared ?_
    refine ⟨?_, ?_, ?_, ?_, ?_, ?_, ?_, ?_, trivial⟩
    all_goals simp [Construction.operands, Construction.history?]
    all_goals repeat constructor
  have rooted : .root table ∈ operands.histories := .head _
  have atHand : zero ∈ operands.expressions ∧ stored ∈ operands.expressions := by
    simp [expressions_operands]
  refine (built.tail (.write rooted atHand.1 atHand.2)).tail (.construct ?_ ?_)
  all_goals simp [Construction.operands, Construction.history?]
  · exact .tail _ (.head _)
  · exact .head _

theorem mem_of_leadsTo
    {node : Expr}
    (leads : lookup.LeadsTo false node) :
    node ∈ [lookup, index, byte, zero] := by
  induction leads with
  | self => exact List.mem_cons_self
  | kid _ isKid inductionHypothesis =>
      simp only [List.mem_cons, List.not_mem_nil, or_false] at inductionHypothesis
      rcases inductionHypothesis with rfl | rfl | rfl | rfl <;>
        simp_all [lookup, index, byte, zero, Expr.kids]
  | written wanted => cases wanted

end TableByte

open TableByte in
/-- The byte that was written is listed with histories only. -/
theorem reads_exact_lookup :
    (∃ reads, lookup.reads false = .ok reads ∧ (reads.map Expr.id).Nodup ∧
      lookup ∈ reads ∧ byte ∈ reads ∧ stored ∉ reads) ∧
    ∃ reads, lookup.reads true = .ok reads ∧ (reads.map Expr.id).Nodup ∧
      lookup ∈ reads ∧ byte ∈ reads ∧ stored ∈ reads := by
  have built : lookup ∈ workshop.expressions := by simp [expressions_workshop]
  have toByte (histories : Bool) : lookup.LeadsTo histories byte :=
    .kid (.kid .self (List.mem_singleton_self index)) (List.mem_singleton_self byte)
  constructor
  · obtain ⟨reads, ran, distinct, isListed⟩ := Workshop.reads_exact reachable built false
    refine ⟨reads, ran, distinct, (isListed _).2 ⟨rfl, .self⟩,
      (isListed _).2 ⟨rfl, toByte false⟩, fun listed => ?_⟩
    have inside := mem_of_leadsTo ((isListed stored).1 listed).2
    simp [stored, lookup, index, byte, zero] at inside
  · obtain ⟨reads, ran, distinct, isListed⟩ := Workshop.reads_exact reachable built true
    refine ⟨reads, ran, distinct, (isListed _).2 ⟨rfl, .self⟩,
      (isListed _).2 ⟨rfl, toByte true⟩, (isListed _).2 ⟨rfl, .written rfl .self ?_⟩⟩
    simp [lookup, Expr.written, written, Updates.written]

/-! ## The arrays of the reads -/

/-- The array below a history was there before what was written. -/
theorem Updates.Lineage.root_mem
    {histories : List Updates}
    (lineage : Updates.Lineage histories)
    (updates : Updates)
    (made : updates ∈ histories) :
    .root updates.array ∈ histories := by
  match updates with
  | .root array => exact made
  | .write id index value older =>
      exact Updates.Lineage.root_mem lineage older (lineage.older id index value older made)

/-- Arrays below histories are told apart by their identities. -/
theorem Table.Supports.array_eq_of_id_eq
    {histories : List Updates}
    {table : Table}
    (supports : table.Supports histories)
    (lineage : Updates.Lineage histories)
    {first second : Updates}
    (isFirst : first ∈ histories)
    (isSecond : second ∈ histories)
    (same : first.array.id = second.array.id) :
    first.array = second.array := by
  have roots : Updates.root first.array = .root second.array := by
    refine supports.coherent _ (lineage.root_mem first isFirst) _
      (lineage.root_mem second isSecond) ?_
    simpa [Updates.same, Updates.array, Updates.newest?] using same
  exact Updates.root.inj roots

/-- Only reads have a history. -/
theorem Expr.kind?_of_updates?
    {node : Expr}
    {updates : Updates}
    (reads : updates ∈ node.updates?) :
    node.kind? = some .read := by
  cases node <;> cases reads
  rfl

namespace ArraySearch

variable {wanted : ArrayDecl → Bool}

/-- An array is noted at most once. -/
theorem nodup_note
    {array : ArrayDecl}
    {found : List ArrayDecl}
    (distinct : found.Nodup) :
    (note wanted array found).Nodup := by
  unfold note
  split
  next new =>
    simp only [Bool.and_eq_true, Bool.not_eq_true', List.contains_eq_mem,
      decide_eq_false_iff_not] at new
    refine List.nodup_append.2 ⟨distinct, List.nodup_singleton _, ?_⟩
    rintro other isFound _ isArray rfl
    exact new.2 (List.mem_singleton.1 isArray ▸ isFound)
  next => exact distinct

/-- No array is found twice. -/
theorem nodup_found_run
    (roots : List Expr) :
    (run wanted roots).found.Nodup := by
  have keeps : (Region.ofParts (hook wanted) roots (hook_fromHistory wanted)).Keeps
      fun visited _ => visited.state.found.Nodup := by
    refine ⟨fun _ _ _ _ distinct => distinct, ?_⟩
    intro visited node rest _ _ distinct
    cases node with
    | read tag updates index => exact nodup_note distinct
    | _ => exact distinct
  exact keeps.walkAll (fun _ _ distinct => distinct) _ List.nodup_nil

end ArraySearch

/-- An array below one of some reads. -/
def ArrayDecl.IsBelow (reads : List Expr) (array : ArrayDecl) : Prop :=
  ∃ read ∈ reads, ∃ updates ∈ read.updates?, array = updates.array

section

variable
  {made : List Updates}
  {table : Table}
  {expression : Expr}
  {reads : List Expr}

/-- A search finds the wanted arrays below the reads that an expression leads to. -/
theorem arraysWhere_spec
    (supports : table.Supports made)
    (lineage : Updates.Lineage made)
    (registered : expression.Registered made table)
    (isListed : ∀ node, node ∈ reads ↔
      node.kind? = some .read ∧ expression.LeadsTo true node)
    (wanted : ArrayDecl → Bool) :
    ∃ arrays, arraysWhere wanted [expression] = .ok arrays ∧ arrays.Nodup ∧
      ∀ array, array ∈ arrays ↔ array.IsBelow reads ∧ wanted array = true := by
  obtain ⟨unbroken, found⟩ : (ArraySearch.run wanted [expression]).broken = false ∧ _ :=
    ArraySearch.mem_found_run supports lineage (List.forall_mem_singleton.2 registered)
  refine ⟨_, if_neg (ne_true_of_eq_false unbroken), ArraySearch.nodup_found_run _, ?_⟩
  intro array
  rw [found, partsEach, partsEach, List.append_nil]
  constructor
  · rintro ⟨node, isPart, updates, isRead, rfl, want⟩
    have listed := (isListed node).2
      ⟨Expr.kind?_of_updates? isRead, Expr.leadsTo_true_iff.2 isPart⟩
    exact ⟨⟨node, listed, updates, isRead, rfl⟩, want⟩
  · rintro ⟨⟨node, listed, updates, isRead, rfl⟩, want⟩
    exact ⟨node, ((isListed node).1 listed).2.mem_parts, updates, isRead, rfl, want⟩

/-- Arrays below reads that were built are told apart by their identities. -/
theorem ArrayDecl.IsBelow.eq_of_id_eq
    (supports : table.Supports made)
    (lineage : Updates.Lineage made)
    (registered : ∀ read ∈ reads, read.Registered made table)
    {first second : ArrayDecl}
    (isFirst : first.IsBelow reads)
    (isSecond : second.IsBelow reads)
    (same : first.id = second.id) :
    first = second := by
  obtain ⟨read, listed, updates, isRead, rfl⟩ := isFirst
  obtain ⟨other, otherListed, updatesToo, isReadToo, rfl⟩ := isSecond
  exact supports.array_eq_of_id_eq lineage
    ((registered read listed).self.history updates isRead)
    ((registered other otherListed).self.history updatesToo isReadToo) same

end

/--
The searches for arrays end with lists.  Together these have every array below a read that
the expression leads to through operands and histories, and no array twice; the first list
has the symbolic ones, the second those with known values.
-/
theorem Workshop.arrays_of_reads
    {workshop : Workshop}
    (reached : workshop.Reachable)
    {expression : Expr}
    (built : expression ∈ workshop.expressions) :
    ∃ reads symbolic constants, expression.reads true = .ok reads ∧
      symbolicArrays [expression] = .ok symbolic ∧
      constantArrays [expression] = .ok constants ∧
      ((symbolic ++ constants).map ArrayDecl.id).Nodup ∧
      (∀ array, array ∈ symbolic ++ constants ↔ array.IsBelow reads) ∧
      (∀ array ∈ symbolic, array.isSymbolic = true) ∧
      ∀ array ∈ constants, array.isConstant = true := by
  have sound := reached.sound
  have registered := sound.registered expression built
  obtain ⟨reads, ran, _, isListed⟩ :=
    Expr.reads_spec sound.supports reached.lineage registered true
  have search := arraysWhere_spec sound.supports reached.lineage registered isListed
  obtain ⟨symbolic, foundSymbolic, distinct, isSymbolic⟩ := search ArrayDecl.isSymbolic
  obtain ⟨constants, foundConstants, distinctToo, isConstant⟩ := search ArrayDecl.isConstant
  have together (array : ArrayDecl) :
      array ∈ symbolic ++ constants ↔ array.IsBelow reads := by
    have either : array.isSymbolic = true ∨ array.isConstant = true := by
      cases known : array.contents <;> simp [ArrayDecl.isSymbolic, ArrayDecl.isConstant, known]
    rw [List.mem_append, isSymbolic, isConstant, ← and_or_left]
    exact and_iff_left either
  have apart : List.Disjoint symbolic constants := by
    intro array inSymbolic inConstants
    have isNone := ((isSymbolic array).1 inSymbolic).2
    have isSome := ((isConstant array).1 inConstants).2
    cases known : array.contents <;>
      simp [ArrayDecl.isSymbolic, ArrayDecl.isConstant, known] at isNone isSome
  refine ⟨reads, symbolic, constants, ran, foundSymbolic, foundConstants, ?_, together,
    fun array member => ((isSymbolic array).1 member).2,
    fun array member => ((isConstant array).1 member).2⟩
  refine (distinct.append distinctToo apart).map_on fun first isFirst second isSecond same => ?_
  refine ArrayDecl.IsBelow.eq_of_id_eq sound.supports reached.lineage ?_
    ((together first).1 isFirst) ((together second).1 isSecond) same
  exact fun read listed => registered.part ((isListed read).1 listed).2.mem_parts

open TableByte in
/-- The lookup, the byte that was written and the byte of the index stand on three arrays. -/
theorem arrays_of_reads_lookup :
    ∃ symbolic constants, lookup.reads true = .ok [lookup, stored, byte] ∧
      symbolicArrays [lookup] = .ok symbolic ∧ constantArrays [lookup] = .ok constants ∧
      ((symbolic ++ constants).map ArrayDecl.id).Nodup ∧
      (∀ array, array ∈ symbolic ++ constants ↔
        array = table ∨ array = second ∨ array = first) ∧
      table ∉ symbolic ∧ second ∉ constants := by
  have built : lookup ∈ workshop.expressions := by simp [expressions_workshop]
  have listed : lookup.reads true = .ok [lookup, stored, byte] := by
    simp [Expr.reads, ReadSearch.run, ReadSearch.Agenda.push, ReadSearch.successors,
      ReadSearch.pending, Updates.unwalked, Expr.isConstant, Expr.kind?, Expr.kids, Expr.id,
      Expr.tag, lookup, written, stored, index, byte, zero]
  obtain ⟨reads, symbolic, constants, ran, foundSymbolic, foundConstants, distinct, below,
    isSymbolic, isConstant⟩ := Workshop.arrays_of_reads reachable built
  cases listed.symm.trans ran
  refine ⟨symbolic, constants, listed, foundSymbolic, foundConstants, distinct, ?_, ?_, ?_⟩
  · intro array
    rw [below]
    simp [ArrayDecl.IsBelow, Expr.updates?, lookup, stored, byte, written, Updates.array]
  · exact fun member => absurd (isSymbolic table member) (by decide)
  · exact fun member => absurd (isConstant second member) (by decide)

end Diverge
