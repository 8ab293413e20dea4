import Diverge.Proofs.Assoc
import Diverge.Proofs.Expr.Reads

/-!
# One search over several roots

A search over several roots has one memory: it does not enter a node again that an earlier
root led to, and it breaks a history off at a write that was walked for an earlier root.  It
finds the arrays that separate searches find, in the same order, each at its first place
(`Workshop.arrays_of_roots`).

The search for one root that goes on from earlier ones is run beside a search that starts
afresh.  Where the latter goes through nodes that the former knows, the former stands still:
what it knows is closed under operands and histories, so nothing new comes of these nodes
(`ArraySearch.Continues`).
-/

namespace Diverge

/-! ## Walks as a relation -/

section

variable {σ : Type} {hook : Hook σ}

/-- How a walk goes on from where it has arrived, with a stack, to where it ends. -/
inductive Walks (hook : Hook σ) : Visited σ → List Expr → Visited σ → Prop where
  | done
      {visited : Visited σ} :
      Walks hook visited [] visited
  | skip
      {visited ending : Visited σ}
      {node : Expr}
      {rest : List Expr}
      (seen : node.id ∈ visited.seen)
      (later : Walks hook visited rest ending) :
      Walks hook visited (node :: rest) ending
  | enter
      {visited ending : Visited σ}
      {node : Expr}
      {rest : List Expr}
      (new : node.id ∉ visited.seen)
      (later : Walks hook (visited.enter hook node) (visited.onward hook node rest) ending) :
      Walks hook visited (node :: rest) ending

/-- The loop of the visitor is a walk in the sense of the relation. -/
theorem walks_walk
    (region : Region hook)
    (visited : Visited σ)
    (stack : List Expr)
    (inside : ∀ node ∈ stack, region.Mem node) :
    Walks hook visited stack (walk hook region visited stack inside) := by
  fun_induction walk hook region visited stack inside with
  | case1 visited => exact .done
  | case2 visited node rest inside nodeInside restInside seen _ inductionHypothesis =>
      exact .skip seen inductionHypothesis
  | case3 visited node rest inside nodeInside restInside new entered _
      inductionHypothesis =>
      exact .enter new inductionHypothesis

/-- A walk ends in one way. -/
theorem Walks.unique
    {visited first second : Visited σ}
    {stack : List Expr}
    (walks : Walks hook visited stack first)
    (walksToo : Walks hook visited stack second) :
    first = second := by
  induction walks with
  | done =>
      cases walksToo
      rfl
  | skip seen _ inductionHypothesis =>
      cases walksToo with
      | skip _ later => exact inductionHypothesis later
      | enter new _ => exact absurd seen new
  | enter new _ inductionHypothesis =>
      cases walksToo with
      | skip seen _ => exact absurd seen new
      | enter _ later => exact inductionHypothesis later

/-- The nodes of a stack that have not been entered. -/
def Visited.unseen (visited : Visited σ) (stack : List Expr) : List Expr :=
  stack.filter fun node => node.id ∉ visited.seen

theorem Visited.unseen_append
    (visited : Visited σ)
    (first second : List Expr) :
    visited.unseen (first ++ second) = visited.unseen first ++ visited.unseen second :=
  List.filter_append ..

/-- Nothing is left to see of a stack whose nodes were all seen. -/
theorem Visited.unseen_eq_nil
    {visited : Visited σ}
    {stack : List Expr} :
    visited.unseen stack = [] ↔ ∀ node ∈ stack, node.id ∈ visited.seen := by
  simp [Visited.unseen]

/-- Nodes on top of the stack that have been entered do not count. -/
theorem Walks.skip_known
    {visited ending : Visited σ}
    {known rest : List Expr}
    (seen : ∀ node ∈ known, node.id ∈ visited.seen)
    (later : Walks hook visited rest ending) :
    Walks hook visited (known ++ rest) ending := by
  induction known with
  | nil => exact later
  | cons node known inductionHypothesis =>
      rw [List.forall_mem_cons] at seen
      exact .skip seen.1 (inductionHypothesis seen.2)

/-- A walk depends only on those nodes of its stack that were not entered long before. -/
theorem Walks.of_unseen_eq
    {before visited ending : Visited σ}
    {stack other : List Expr}
    (included : ∀ id ∈ before.seen, id ∈ visited.seen)
    (same : before.unseen stack = before.unseen other)
    (walks : Walks hook visited stack ending) :
    Walks hook visited other ending := by
  have known {nodes : List Expr}
      (all : ∀ node ∈ nodes, ¬ decide (node.id ∉ before.seen) = true) :
      ∀ node ∈ nodes, node.id ∈ before.seen :=
    fun node member => by simpa using all node member
  induction walks generalizing other with
  | done =>
      have nothing := Visited.unseen_eq_nil.1 same.symm
      rw [← List.append_nil other]
      exact .skip_known (fun node member => included _ (nothing node member)) .done
  | @skip visited ending node rest seen later inductionHypothesis =>
      by_cases old : node.id ∈ before.seen
      · refine inductionHypothesis included ?_
        rw [← same]
        simp [Visited.unseen, old]
      · have top : before.unseen (node :: rest) = node :: before.unseen rest := by
          simp [Visited.unseen, old]
        obtain ⟨above, below, rfl, aboveKnown, _, sameRest⟩ :=
          List.filter_eq_cons_iff.1 (same.symm.trans top)
        exact .skip_known (fun other member => included _ (known aboveKnown other member))
          (.skip seen (inductionHypothesis included sameRest.symm))
  | @enter visited ending node rest new later inductionHypothesis =>
      have young : node.id ∉ before.seen := fun old => new (included _ old)
      have top : before.unseen (node :: rest) = node :: before.unseen rest := by
        simp [Visited.unseen, young]
      obtain ⟨above, below, rfl, aboveKnown, _, sameRest⟩ :=
        List.filter_eq_cons_iff.1 (same.symm.trans top)
      refine .skip_known (fun other member => included _ (known aboveKnown other member))
        (.enter new (inductionHypothesis ?_ ?_))
      · exact fun id old => Std.HashSet.mem_insert.2 (.inr (included id old))
      · unfold Visited.onward
        rw [Visited.unseen_append _ _ rest, Visited.unseen_append _ _ below]
        exact congrArg _ sameRest.symm

end

/-! ## Histories walked before -/

section

variable
  {histories : List Updates}
  {before : Std.HashSet Nat}
  {due : Expr → Prop}

/-- What is below a walked write adds no write that was not walked. -/
theorem Updates.Covers.mem_walked_of_mem_unwalked
    (lineage : Updates.Lineage histories)
    (covers : Updates.Covers histories before due fun _ => False)
    (updates : Updates)
    (made : updates ∈ histories)
    (isWalked : updates.Walked before)
    {alone : Std.HashSet Nat}
    {id : Nat}
    (member : id ∈ (updates.unwalked alone).2) :
    id ∈ before ∨ id ∈ alone := by
  match updates with
  | .root array => exact .inr member
  | .write newest index value older =>
      unfold Updates.unwalked at member
      split at member
      next => exact .inr member
      next =>
          obtain ⟨_, _, olderWalked⟩ := covers newest index value older made (isWalked newest rfl)
          rcases Updates.Covers.mem_walked_of_mem_unwalked lineage covers older
            (lineage.older _ _ _ _ made) (olderWalked.resolve_right not_false) member
            with old | inserted
          · exact .inl old
          · rcases Std.HashSet.mem_insert.1 inserted with isNewest | old
            · exact .inl (beq_iff_eq.1 isNewest ▸ isWalked newest rfl)
            · exact .inr old

/--
A history is walked down to the first write that was walked before or now.  What is left out
because it was walked before has nothing that is not due.
-/
theorem Updates.Covers.unwalked_of_mem_iff
    (lineage : Updates.Lineage histories)
    (covers : Updates.Covers histories before due fun _ => False)
    (updates : Updates)
    (made : updates ∈ histories)
    {alone together : Std.HashSet Nat}
    (both : ∀ id, id ∈ together ↔ id ∈ before ∨ id ∈ alone) :
    (∀ id, id ∈ (updates.unwalked together).2 ↔
      id ∈ before ∨ id ∈ (updates.unwalked alone).2) ∧
    ∃ known, (updates.unwalked alone).1 = (updates.unwalked together).1 ++ known ∧
      ∀ pair ∈ known, due pair.1 ∧ due pair.2 := by
  match updates with
  | .root array => exact ⟨both, [], rfl, nofun⟩
  | .write newest index value older =>
      by_cases now : newest ∈ alone
      · have stays : newest ∈ together := (both newest).2 (.inr now)
        simp only [Updates.unwalked, now, stays, if_true]
        exact ⟨both, [], rfl, nofun⟩
      · by_cases old : newest ∈ before
        · have isWalked : (Updates.write newest index value older).Walked before :=
            fun _ isNewest => Option.some.inj isNewest ▸ old
          have stays : newest ∈ together := (both newest).2 (.inl old)
          have broken : (Updates.write newest index value older).unwalked together =
              ([], together) := by
            simp only [Updates.unwalked, stays, if_true]
          rw [broken]
          refine ⟨fun id => ?_, _, rfl, fun pair member => ?_⟩
          · rw [both]
            constructor
            · exact fun known => known.imp_right (Updates.mem_unwalked_of_mem _)
            · rintro (known | member)
              · exact .inl known
              · exact covers.mem_walked_of_mem_unwalked lineage _ made isWalked member
          · have written := covers.written lineage _ made isWalked
            have among := Updates.mem_written_of_mem_unwalked _ _ member
            exact ⟨written _ among.1, written _ among.2⟩
        · have goesOn : newest ∉ together := fun member =>
            ((both newest).1 member).elim old now
          have bothLater (id : Nat) : id ∈ together.insert newest ↔
              id ∈ before ∨ id ∈ alone.insert newest := by
            rw [Std.HashSet.mem_insert, Std.HashSet.mem_insert, both]
            exact or_left_comm
          obtain ⟨walked, known, split, isDue⟩ :=
            Updates.Covers.unwalked_of_mem_iff lineage covers older
              (lineage.older _ _ _ _ made) bothLater
          simp only [Updates.unwalked, now, goesOn, if_false]
          exact ⟨walked, known, congrArg _ split, isDue⟩

end

/-! ## Going on from earlier roots -/

namespace ArraySearch

variable {wanted : ArrayDecl → Bool}

/--
Beside a search that has started afresh, one has gone on from earlier roots: it has seen and
walked what either has, and has found what is new on top of what was found before.
-/
structure Continues (before alone together : Visited ArraySearch) : Prop where
  seen : ∀ id, id ∈ together.seen ↔ id ∈ before.seen ∨ id ∈ alone.seen
  walked : ∀ id, id ∈ together.state.walked ↔
    id ∈ before.state.walked ∨ id ∈ alone.state.walked
  found : together.state.found =
    before.state.found ++ alone.state.found.filter (· ∉ before.state.found)

/-- Going on begins where the earlier roots ended. -/
theorem continues_start
    (before : Visited ArraySearch) :
    Continues before { seen := ∅, state := {} } before where
  seen := by simp
  walked := by simp
  found := by simp

/-- Noting what is known already changes nothing among the unknown. -/
theorem note_of_mem
    {array : ArrayDecl}
    {known found : List ArrayDecl}
    (isKnown : wanted array = true → array ∈ known) :
    (note wanted array found).filter (· ∉ known) = found.filter (· ∉ known) := by
  unfold note
  split
  next new =>
      have member : array ∈ known := isKnown (Bool.and_eq_true_iff.1 new).1
      simp [List.filter_append, member]
  next => rfl

/-- Noting in a list that continues known arrays is noting in its continuation. -/
theorem note_append_filter
    (array : ArrayDecl)
    (known found : List ArrayDecl) :
    note wanted array (known ++ found.filter (· ∉ known)) =
      known ++ (note wanted array found).filter (· ∉ known) := by
  unfold note
  by_cases isWanted : wanted array = true <;> by_cases isKnown : array ∈ known <;>
    by_cases isFound : array ∈ found <;>
    simp [isWanted, isKnown, isFound, List.filter_append]

section

variable
  {histories : List Updates}
  {table : Table}
  {roots : List Expr}
  {before alone together : Visited ArraySearch}
  {node : Expr}

/-- The search that started afresh enters a node that the other knows and learns nothing. -/
theorem Continues.enter_known
    (lineage : Updates.Lineage histories)
    (registered : ∀ root ∈ roots, root.Registered histories table)
    (complete : Complete wanted histories (partsEach roots) before [])
    (continues : Continues before alone together)
    (inside : node ∈ partsEach roots)
    (old : node.id ∈ before.seen) :
    Continues before (alone.enter (hook wanted) node) together := by
  have made := (registered_of_mem_partsEach registered inside).self.history
  constructor
  · intro id
    rw [continues.seen]
    simp only [Visited.enter, Std.HashSet.mem_insert, beq_iff_eq]
    constructor
    · exact Or.imp_right .inr
    · rintro (known | rfl | member)
      · exact .inl known
      · exact .inl old
      · exact .inr member
  · intro id
    rw [continues.walked]
    constructor
    · exact Or.imp_right mem_walked_hook
    · rintro (known | member)
      · exact .inl known
      · cases node with
        | read tag updates index =>
            exact complete.covers.mem_walked_of_mem_unwalked lineage updates
              (made updates rfl) (complete.walked _ inside old updates rfl) member
        | _ => exact .inr member
  · rw [continues.found]
    cases node with
    | read tag updates index =>
        exact congrArg _ (note_of_mem (complete.found _ inside old updates rfl)).symm
    | _ => rfl

/-- What is put on the stack for a node stands next to it. -/
theorem mem_neighbours
    {search : ArraySearch}
    {next : Expr}
    (member : next ∈ node.kids ++ (hook wanted search node).2.reverse) :
    next ∈ node.neighbours := by
  rcases List.mem_append.1 member with isKid | isExtra
  · exact List.mem_append_left _ isKid
  · exact List.mem_append_right _
      (hook_fromHistory wanted _ _ next (List.mem_reverse.1 isExtra))

/-- From a node that was seen in a finished walk nothing new is reached. -/
theorem unseen_onward_of_mem
    (lineage : Updates.Lineage histories)
    (registered : ∀ root ∈ roots, root.Registered histories table)
    (complete : Complete wanted histories (partsEach roots) before [])
    (inside : node ∈ partsEach roots)
    (old : node.id ∈ before.seen)
    (rest : List Expr) :
    before.unseen (alone.onward (hook wanted) node rest) = before.unseen rest := by
  unfold Visited.onward
  rw [Visited.unseen_append, Visited.unseen_eq_nil.2, List.nil_append]
  intro next member
  exact complete.neighbour_seen lineage registered inside old (mem_neighbours member)

/-- Both searches enter a node that is new to both. -/
theorem Continues.enter_new
    (lineage : Updates.Lineage histories)
    (registered : ∀ root ∈ roots, root.Registered histories table)
    (complete : Complete wanted histories (partsEach roots) before [])
    (continues : Continues before alone together)
    (inside : node ∈ partsEach roots) :
    Continues before (alone.enter (hook wanted) node) (together.enter (hook wanted) node) := by
  have made := (registered_of_mem_partsEach registered inside).self.history
  constructor
  · intro id
    simp only [Visited.enter, Std.HashSet.mem_insert, continues.seen]
    exact or_left_comm
  · cases node with
    | read tag updates index =>
        exact (complete.covers.unwalked_of_mem_iff lineage updates (made updates rfl)
          continues.walked).1
    | _ => exact continues.walked
  · cases node with
    | read tag updates index =>
        show note wanted updates.array together.state.found = _
        rw [continues.found]
        exact note_append_filter ..
    | _ => exact continues.found

/-- What only the search that started afresh has to go through was seen before. -/
theorem Continues.unseen_onward
    (lineage : Updates.Lineage histories)
    (registered : ∀ root ∈ roots, root.Registered histories table)
    (complete : Complete wanted histories (partsEach roots) before [])
    (continues : Continues before alone together)
    (inside : node ∈ partsEach roots)
    (rest : List Expr) :
    before.unseen (alone.onward (hook wanted) node rest) =
      before.unseen (together.onward (hook wanted) node rest) := by
  have made := (registered_of_mem_partsEach registered inside).self.history
  unfold Visited.onward
  cases node with
  | read tag updates index =>
      obtain ⟨_, known, split, isDue⟩ :=
        complete.covers.unwalked_of_mem_iff lineage updates (made updates rfl) continues.walked
      have nothing : before.unseen
          (known.flatMap fun pair => [pair.2, pair.1]).reverse = [] := by
        rw [Visited.unseen_eq_nil]
        intro next member
        obtain ⟨pair, isKnown, which⟩ := List.mem_flatMap.1 (List.mem_reverse.1 member)
        obtain ⟨indexDue, valueDue⟩ := isDue pair isKnown
        simp only [List.mem_cons, List.not_mem_nil, or_false] at which
        rcases which with rfl | rfl
        · exact valueDue.resolve_right List.not_mem_nil
        · exact indexDue.resolve_right List.not_mem_nil
      simp only [hook, split, List.flatMap_append, List.reverse_append, Visited.unseen_append,
        nothing, List.nil_append]
  | _ => rfl

/--
A search that goes on from earlier roots ends beside one that starts afresh.  The induction is
on the latter: it is the one that takes more steps.
-/
theorem Continues.walks
    {stack : List Expr}
    {ending : Visited ArraySearch}
    (lineage : Updates.Lineage histories)
    (registered : ∀ root ∈ roots, root.Registered histories table)
    (complete : Complete wanted histories (partsEach roots) before [])
    (inside : ∀ node ∈ stack, node ∈ partsEach roots)
    (walks : Walks (hook wanted) alone stack ending)
    (continues : Continues before alone together) :
    ∃ last, Walks (hook wanted) together stack last ∧ Continues before ending last := by
  have included {alone together : Visited ArraySearch}
      (continues : Continues before alone together) :
      ∀ id ∈ before.seen, id ∈ together.seen :=
    fun id old => (continues.seen id).2 (.inl old)
  induction walks generalizing together with
  | done => exact ⟨together, .done, continues⟩
  | skip seen _ inductionHypothesis =>
      rw [List.forall_mem_cons] at inside
      obtain ⟨last, walks, ended⟩ := inductionHypothesis inside.2 continues
      exact ⟨last, .skip ((continues.seen _).2 (.inr seen)) walks, ended⟩
  | @enter alone ending node rest new _ inductionHypothesis =>
      rw [List.forall_mem_cons] at inside
      obtain ⟨nodeInside, restInside⟩ := inside
      have onwardInside : ∀ next ∈ alone.onward (hook wanted) node rest,
          next ∈ partsEach roots := by
        refine List.forall_mem_append.2 ⟨fun next isNext => ?_, restInside⟩
        exact partsEach_closed (mem_neighbours isNext) roots nodeInside
      by_cases old : node.id ∈ before.seen
      · obtain ⟨last, walks, ended⟩ := inductionHypothesis onwardInside
          (continues.enter_known lineage registered complete nodeInside old)
        refine ⟨last, .skip (included continues _ old) (walks.of_unseen_eq (included continues) ?_),
          ended⟩
        exact unseen_onward_of_mem lineage registered complete nodeInside old rest
      · have both := continues.enter_new lineage registered complete nodeInside
        obtain ⟨last, walks, ended⟩ := inductionHypothesis onwardInside both
        have newToo : node.id ∉ together.seen := fun seen =>
          ((continues.seen _).1 seen).elim old new
        refine ⟨last, .enter newToo (walks.of_unseen_eq (included both) ?_), ended⟩
        exact continues.unseen_onward lineage registered complete nodeInside rest

variable {visited : Visited ArraySearch}

/-- Searching one more root adds what a search of that root alone finds and is new. -/
theorem found_walk
    (lineage : Updates.Lineage histories)
    (registered : ∀ root ∈ roots, root.Registered histories table)
    (complete : Complete wanted histories (partsEach roots) before [])
    {root : Expr}
    (isRoot : root ∈ roots)
    (region : Region (hook wanted))
    (inside : ∀ node ∈ [root], region.Mem node) :
    (walk (hook wanted) region before [root] inside).state.found =
      before.state.found ++ (run wanted [root]).found.filter (· ∉ before.state.found) := by
  have alone : Walks (hook wanted) { seen := ∅, state := {} } [root]
      (walkParts (hook wanted) (hook_fromHistory wanted) {} [root]) :=
    walks_walk _ _ [root] _
  have isPart : ∀ node ∈ [root], node ∈ partsEach roots :=
    List.forall_mem_singleton.2 (mem_partsEach_of_mem isRoot)
  obtain ⟨last, walks, ended⟩ :=
    (continues_start before).walks lineage registered complete isPart alone
  rw [(walks_walk region before [root] inside).unique walks]
  exact ended.found

/-- Searching several roots in turn finds what separate searches find, at its first place. -/
theorem found_walkAll
    (supports : table.Supports histories)
    (lineage : Updates.Lineage histories)
    (registered : ∀ root ∈ roots, root.Registered histories table)
    {earlier : List ArrayDecl}
    {rest : List Expr}
    (areRoots : ∀ root ∈ rest, root ∈ roots)
    (inside : ∀ root ∈ rest,
      (Region.ofParts (hook wanted) roots (hook_fromHistory wanted)).Mem root)
    (complete : Complete wanted histories (partsEach roots) visited [])
    (found : visited.state.found = earlier.eraseDups) :
    (walkAll (hook wanted) _ visited rest inside).state.found =
      (earlier ++ rest.flatMap fun root => (run wanted [root]).found).eraseDups := by
  induction rest generalizing visited earlier with
  | nil =>
      rw [List.flatMap_nil, List.append_nil]
      exact found
  | cons root rest inductionHypothesis =>
      rw [List.forall_mem_cons] at areRoots
      rw [List.flatMap_cons, ← List.append_assoc, walkAll]
      apply inductionHypothesis areRoots.2
      · exact (Complete.keeps supports lineage registered).walk _ (complete.push root)
      · rw [found_walk lineage registered complete areRoots.1, found,
          eraseDups_append_of_nodup _ (nodup_found_run [root])]

end

end ArraySearch

section

variable
  {histories : List Updates}
  {table : Table}
  {roots : List Expr}

/-- The search over several roots ends, with what the pruned walk finds. -/
theorem arraysWhere_eq_ok
    (supports : table.Supports histories)
    (lineage : Updates.Lineage histories)
    (registered : ∀ root ∈ roots, root.Registered histories table)
    (wanted : ArrayDecl → Bool) :
    arraysWhere wanted roots = .ok (ArraySearch.run wanted roots).found := by
  obtain ⟨unbroken, _⟩ : (ArraySearch.run wanted roots).broken = false ∧ _ :=
    ArraySearch.mem_found_run supports lineage registered
  exact if_neg (ne_true_of_eq_false unbroken)

/-- Searching several roots finds what is found below each of them, at its first place. -/
theorem arraysWhere_of_roots
    (supports : table.Supports histories)
    (lineage : Updates.Lineage histories)
    (registered : ∀ root ∈ roots, root.Registered histories table)
    (wanted : ArrayDecl → Bool) :
    ∃ below : Expr → List ArrayDecl,
      (∀ root ∈ roots, arraysWhere wanted [root] = .ok (below root)) ∧
      arraysWhere wanted roots = .ok (roots.flatMap below).eraseDups := by
  refine ⟨fun root => (ArraySearch.run wanted [root]).found, fun root isRoot => ?_, ?_⟩
  · exact arraysWhere_eq_ok supports lineage
      (List.forall_mem_singleton.2 (registered root isRoot)) wanted
  · have nothing : ([] : List ArrayDecl) = [].eraseDups := rfl
    rw [arraysWhere_eq_ok supports lineage registered, ← List.nil_append (roots.flatMap _)]
    exact congrArg Except.ok (ArraySearch.found_walkAll supports lineage registered
      (fun _ isRoot => isRoot) _ ArraySearch.complete_start nothing)

end

/--
Searching several expressions for symbolic arrays, or for constant ones, gives one list: the
lists of the expressions searched alone, one after another, with every array kept at its
first place only.
-/
theorem Workshop.arrays_of_roots
    {workshop : Workshop}
    (reached : workshop.Reachable)
    {roots : List Expr}
    (built : ∀ root ∈ roots, root ∈ workshop.expressions) :
    (∃ symbolic : Expr → List ArrayDecl,
      (∀ root ∈ roots, symbolicArrays [root] = .ok (symbolic root)) ∧
      symbolicArrays roots = .ok (roots.flatMap symbolic).eraseDups) ∧
    ∃ constants : Expr → List ArrayDecl,
      (∀ root ∈ roots, constantArrays [root] = .ok (constants root)) ∧
      constantArrays roots = .ok (roots.flatMap constants).eraseDups := by
  have sound := reached.sound
  have registered (root : Expr) (isRoot : root ∈ roots) :=
    sound.registered root (built root isRoot)
  have search := arraysWhere_of_roots sound.supports reached.lineage registered
  exact ⟨search ArrayDecl.isSymbolic, search ArrayDecl.isConstant⟩

open TableByte in
/-- The lookup alone leads to the first array and then to the second.  After the byte that is
written over the table, which leads to the second, only the first is new. -/
theorem arrays_of_roots_lookup :
    symbolicArrays [stored] = .ok [second] ∧ symbolicArrays [lookup] = .ok [first, second] ∧
      symbolicArrays [stored, lookup] = .ok [second, first] ∧
      constantArrays [stored, lookup] = .ok [table] := by
  have built : ∀ root ∈ [stored, lookup], root ∈ workshop.expressions := by
    simp [expressions_workshop]
  have below : symbolicArrays [stored] = .ok [second] ∧ constantArrays [stored] = .ok [] ∧
      symbolicArrays [lookup] = .ok [first, second] ∧ constantArrays [lookup] = .ok [table] := by
    simp [symbolicArrays, constantArrays, arraysWhere, ArraySearch.run, walkParts, walkAll, walk,
      ArraySearch.hook, ArraySearch.note, Updates.unwalked, Updates.array, Expr.kids, Expr.id,
      Expr.tag, Expr.lacksHistory, ArrayDecl.isSymbolic, ArrayDecl.isConstant, lookup, written,
      stored, index, byte, zero, first, second, table]
  obtain ⟨⟨symbolic, alone, together⟩, constants, aloneToo, togetherToo⟩ :=
    Workshop.arrays_of_roots reachable built
  simp only [List.forall_mem_cons, below, Except.ok.injEq] at alone aloneToo
  refine ⟨below.1, below.2.2.1, ?_, ?_⟩
  · rw [together, List.flatMap_cons, List.flatMap_cons, ← alone.1, ← alone.2.1]
    rfl
  · rw [togetherToo, List.flatMap_cons, List.flatMap_cons, ← aloneToo.1, ← aloneToo.2.1]
    rfl

end Diverge
