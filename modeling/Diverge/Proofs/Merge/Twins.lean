import Diverge.Proofs.Conjunction
import Diverge.Proofs.Merge.Alike

/-!
# Merging a state with an untouched fork

A fork has the stack, the constraints and the bindings of the state it was forked from.
States that agree in all this are *twins*.  A merge of twins shares every constraint,
finds no object to merge, and keeps every register, since each is merged with itself.  What
it does is to add the constraints once more to an empty set.  A set that was made by adding
constraints is what it becomes then: its entries are leaves, told apart by their
identities, so each is appended as it stands.

So nothing changes, but for one thing that can stop the merge: it writes the constraints
before it looks whether they are to be told, and a constraint that shows an integer with
too many digits cannot be written (`Execution.merge_fork`).
-/

namespace Diverge

open Stateful

/-! ## Constraints -/

namespace ConstraintSet

/-- A set shares all its entries with itself. -/
theorem overlap_self
    (set : ConstraintSet) :
    set.overlap set = { common := set.entries, firstOnly := [], secondOnly := [] } := by
  have contained (entry : Expr) (member : entry ∈ set.entries) :
      set.entries.any (·.same entry) = true :=
    List.any_eq_true.2 ⟨entry, member, by simp [Expr.same]⟩
  have common : set.entries.filter set.contains = set.entries :=
    List.filter_eq_self.2 contained
  have own : set.entries.filter (fun entry => !set.entries.any (·.same entry)) = [] := by
    refine List.filter_eq_nil_iff.2 fun entry member => ?_
    rw [contained entry member]
    exact Bool.false_ne_true
  unfold overlap
  dsimp only
  rw [common, own]

/-- A leaf that is not there is appended as it stands. -/
theorem add_leaf
    {entry : Expr}
    {set : ConstraintSet}
    (leaf : entry.IsLeaf)
    (absent : set.contains entry = false) :
    add entry set = .ok () ⟨set.entries ++ [entry]⟩ := by
  have single : entry.conjuncts = [entry] := by
    rcases Expr.conjuncts_cases leaf.bit.typed.self.measured with
      ⟨single, _⟩ | ⟨tag, left, right, rfl, unmarked, _⟩
    · exact single
    · have marked : tag.multi = true := leaf.whole rfl
      rw [unmarked] at marked
      cases marked
  have notTrue : entry.isTrue = false := by
    simp [Expr.isTrue, Expr.constant?, leaf.nonconstant]
  have possible : entry.IsPossible := by
    refine ⟨leaf.bit.width_eq, ?_⟩
    rw [single, List.forall_mem_singleton]
    exact Expr.isFalse_of_not_constant leaf.nonconstant
  rw [add_eq possible, single]
  simp [gained, notTrue, absent, List.eraseDupsBy_cons]

/-- The constant true adds nothing. -/
theorem add_true
    {tag : Tag}
    (width : tag.width = 1)
    (set : ConstraintSet) :
    add (.const tag (Word.ofBool true)) set = .ok () set := by
  have possible : (Expr.const tag (Word.ofBool true)).IsPossible :=
    (Expr.isPossible_const_iff width).2 rfl
  have isTrue : (Expr.const tag (Word.ofBool true)).isTrue = true := by
    simp [Expr.isTrue, Expr.constant?, Expr.isConstant, Expr.kind?, Expr.value?, Expr.width,
      Expr.tag, width, Word.ofBool]
  have nothing : set.gained (Expr.const tag (Word.ofBool true)).conjuncts = [] :=
    gained_cons_of_isTrue isTrue [] set
  rw [add_eq possible, nothing, List.append_nil]

end ConstraintSet

/-- The disjunction of two true constants is a true constant. -/
theorem Build.returns_or_true
    {left right : Tag}
    (width : left.width = 1)
    (table : Table) :
    Returns
      (Build.binary .or (.const left (Word.ofBool true)) (.const right (Word.ofBool true)))
      table fun result _ =>
        ∃ tag : Tag, tag.width = 1 ∧ result = .const tag (Word.ofBool true) := by
  have applied : BinaryOp.or.applyPresent (some (Word.ofBool true)) (some (Word.ofBool true))
      (Expr.const left (Word.ofBool true)).width = .ok (some (Word.ofBool true)) := by
    show BinaryOp.or.applyPresent _ _ left.width = _
    rw [width]
    rfl
  have resultWidth : Build.resultWidth .or (.const left (Word.ofBool true)) = 1 := width
  apply Returns.bind (Returns.ofExcept applied _)
  rw [resultWidth]
  exact Build.returns_constant true table

theorem Build.returns_conjunction_nil
    (table : Table) :
    Returns (Build.conjunction []) table fun result _ =>
      ∃ tag : Tag, tag.width = 1 ∧ result = .const tag (Word.ofBool true) := by
  apply Returns.bind
  refine (Build.returns_constant true table).mono ?_
  intro result _ isTrue
  exact Returns.pure isTrue

/-! ## Registers -/

/-- Where both sides hold the same there is nothing to choose. -/
theorem ExecState.mergedValue_self
    (receiver other : ExecState)
    (guard value : Expr) :
    receiver.mergedValue other guard value value = pure value := by
  unfold ExecState.mergedValue
  rw [if_pos (by simp [Expr.same])]

section

variable
  {value : Expr → Expr → Build Expr}
  (idle : ∀ expression, value expression expression = pure expression)

include idle

theorem mergeLocals_self
    (locals : List (Option Expr)) :
    mergeLocals value locals locals = pure locals := by
  induction locals with
  | nil => rfl
  | cons register rest inductionHypothesis =>
      cases register with
      | none =>
          rw [mergeLocals, inductionHypothesis]
          · rfl
          · simp
      | some expression =>
          rw [mergeLocals, idle, inductionHypothesis]
          rfl

/-- Frames merged with themselves are unchanged, and nothing is built. -/
theorem mergeFrames_self
    (frames : List Frame) :
    mergeFrames value frames frames = pure frames := by
  induction frames with
  | nil => rfl
  | cons frame rest inductionHypothesis =>
      rw [mergeFrames, mergeLocals_self idle, inductionHypothesis]
      rfl

end

namespace Execution

/-! ## Twins -/

/-- The states of an execution, and the memory that they have. -/
def holdings (execution : Execution) : Array ExecState × Array Contents × Array Space :=
  (execution.states, execution.heap.contents, execution.heap.spaces)

/-- The space of a state. -/
def spaceOf (execution : Execution) (place : Nat) : Space :=
  execution.heap.spaceAt (execution.stateAt place).space

/-- Two states that agree in all that a merge reads, the revision apart. -/
structure Twins (execution : Execution) (place otherPlace : Nat) : Prop where
  pc_eq : (execution.stateAt otherPlace).pc = (execution.stateAt place).pc
  symbolics_eq : (execution.stateAt otherPlace).symbolics =
    (execution.stateAt place).symbolics
  stack_eq : (execution.stateAt otherPlace).stack = (execution.stateAt place).stack
  constraints_eq : (execution.stateAt otherPlace).constraints =
    (execution.stateAt place).constraints
  bindings_eq : (execution.spaceOf otherPlace).bindings = (execution.spaceOf place).bindings

variable {execution before after : Execution} {place otherPlace : Nat}

theorem stateAt_of_holdings
    (same : after.holdings = before.holdings)
    (place : Nat) :
    after.stateAt place = before.stateAt place := by
  have states : after.states = before.states := congrArg Prod.fst same
  unfold stateAt
  rw [states]

theorem spaceAt_of_holdings
    (same : after.holdings = before.holdings)
    (space : Nat) :
    after.heap.spaceAt space = before.heap.spaceAt space := by
  have spaces : after.heap.spaces = before.heap.spaces :=
    congrArg (fun holdings => holdings.2.2) same
  unfold Heap.spaceAt
  rw [spaces]

theorem setState_self
    (execution : Execution)
    (place : Nat) :
    execution.setState place (execution.stateAt place) = execution :=
  altered_self execution place

/-! ## What is told -/

/-- Telling something leaves states and memory as they are. -/
theorem returns_trace
    (options : Options)
    (line : String) :
    Returns (trace options line) execution fun _ later =>
      later.holdings = execution.holdings := by
  unfold trace
  split
  · exact ⟨⟨_, _, rfl⟩, Yields.modify rfl⟩
  · exact Returns.pure rfl

theorem returns_traceText
    (options : Options)
    (label : String)
    (written : Except Fault String) :
    Returns (traceText options label written) execution fun _ later =>
      later.holdings = execution.holdings := by
  cases written with
  | ok text => exact returns_trace options _
  | error fault => exact Returns.pure rfl

theorem returns_traceList
    (options : Options)
    (label : String)
    {expressions : List Expr}
    (texts : ∀ expression ∈ expressions, expression.HasText) :
    Returns (traceList options label expressions) execution fun _ later =>
      later.holdings = execution.holdings := by
  obtain ⟨text, written⟩ := (renderList_ends_iff expressions).2 texts
  exact Returns.bind (Returns.ofExcept written (returns_trace options _))

/-- The constraints of twins are told if they have texts. -/
theorem returns_traceOverlap
    (options : Options)
    {set : ConstraintSet}
    (texts : set.HaveTexts) :
    Returns (traceOverlap options (set.overlap set)) execution fun _ later =>
      later.holdings = execution.holdings := by
  have nothing : ∀ expression ∈ ([] : List Expr), expression.HasText :=
    fun _ member => nomatch member
  rw [ConstraintSet.overlap_self]
  apply Returns.bind
  refine (returns_traceList options _ texts).mono ?_
  intro _ first sameFirst
  apply Returns.bind
  refine (returns_traceList options _ nothing).mono ?_
  intro _ second sameSecond
  refine (returns_traceList options _ nothing).mono ?_
  intro _ third sameThird
  exact sameThird.trans (sameSecond.trans sameFirst)

/-- Constraints without a text cannot be told of, even if nothing is to be told. -/
theorem traceOverlap_of_not_haveTexts
    (options : Options)
    {set : ConstraintSet}
    (proper : ∀ entry ∈ set.entries, entry.Throughout Expr.Proper)
    (without : ¬ set.HaveTexts) :
    traceOverlap options (set.overlap set) execution = .error .tooManyDigits execution := by
  have unwritten : renderList set.entries = .error .tooManyDigits := by
    cases written : renderList set.entries with
    | ok text => exact (without ((renderList_ends_iff _).1 ⟨text, written⟩)).elim
    | error fault => rw [renderList_fails set.entries proper fault written]
  rw [ConstraintSet.overlap_self]
  apply bind_of_error
  apply bind_of_error
  rw [unwritten]
  rfl

/-- Comparing memory ends and leaves everything as it is. -/
theorem returns_compareMemory
    (options : Options)
    (left right : Space) :
    Returns (compareMemory options left right) execution fun outcome later =>
      outcome = (Comparison.ofObjects left.objects right.objects).mutated ∧
        later.holdings = execution.holdings := by
  apply Returns.bind
  refine (returns_trace options _).mono ?_
  intro _ first sameFirst
  apply Returns.bind
  refine (returns_traceText options _ _).mono ?_
  intro _ second sameSecond
  apply Returns.bind
  refine (returns_traceText options _ _).mono ?_
  intro _ third sameThird
  have told (lines : List String) : Returns (lines.forM (trace options)) third fun _ later =>
      later.holdings = execution.holdings := by
    refine Returns.forM lines ?_ (sameThird.trans (sameSecond.trans sameFirst))
    intro line _ state same
    exact (returns_trace options line).mono fun _ _ sameToo => sameToo.trans same
  apply Returns.bind
  refine (told _).mono ?_
  intro _ last sameLast
  exact Returns.pure ⟨rfl, sameLast⟩

theorem returns_traceMerged
    (place : Nat) :
    Returns (traceMerged place) execution fun _ later =>
      later.holdings = execution.holdings := by
  unfold traceMerged
  exact Returns.bind_of_ok rfl (returns_traceText _ _ _)

/-! ## What is taken in -/

/-- Building leaves states and bindings as they are. -/
theorem returns_build
    {α : Type}
    {action : Build α}
    {property : α → Prop}
    (returns : Returns action execution.heap.table fun result _ => property result) :
    Returns (build action) execution fun result later =>
      property result ∧ later.holdings = execution.holdings := by
  obtain ⟨⟨result, table, ran⟩, yields⟩ := returns
  have built : build action execution =
      .ok result { execution with heap := { execution.heap with table } } := by
    unfold build onHeap Heap.build
    rw [ran]
  refine ⟨⟨result, _, built⟩, ?_⟩
  intro other later ranToo
  cases built.symm.trans ranToo
  exact ⟨yields ran, rfl⟩

theorem addConstraint_of_ok
    {constraint : Expr}
    {set : ConstraintSet}
    (ran : ConstraintSet.add constraint (execution.stateAt place).constraints = .ok () set) :
    addConstraint place constraint execution =
      .ok () (execution.setState place
        { execution.stateAt place with constraints := set }) := by
  unfold addConstraint onConstraints
  rw [get_bind, ran]
  rfl

/-- A leaf that is not there is added as it stands. -/
theorem addConstraint_leaf
    {entry : Expr}
    {done : List Expr}
    (present : place < execution.states.size)
    (isLeaf : entry.IsLeaf)
    (absent : ConstraintSet.contains ⟨done⟩ entry = false) :
    addConstraint place entry
        (execution.setState place
          { execution.stateAt place with constraints := ⟨done⟩ }) =
      .ok () (execution.setState place
        { execution.stateAt place with constraints := ⟨done ++ [entry]⟩ }) := by
  have here := stateAt_setState execution place
    { execution.stateAt place with constraints := ⟨done⟩ } place
  rw [if_pos ⟨rfl, present⟩] at here
  have added := ConstraintSet.add_leaf isLeaf absent
  rw [addConstraint_of_ok (by rw [here]; exact added), here]
  exact congrArg _ (setState_altered _ _ _ _ _)

/-- Leaves that are told apart are added in their order, each as it stands. -/
theorem forM_addConstraint
    (present : place < execution.states.size)
    (entries : List Expr)
    (done : List Expr)
    (leaves : ∀ entry ∈ entries, entry.IsLeaf)
    (distinct : ((done ++ entries).map Expr.id).Nodup) :
    entries.forM (addConstraint place)
        (execution.setState place
          { execution.stateAt place with constraints := ⟨done⟩ }) =
      .ok () (execution.setState place
        { execution.stateAt place with constraints := ⟨done ++ entries⟩ }) := by
  induction entries generalizing done with
  | nil =>
      rw [List.append_nil]
      rfl
  | cons entry rest inductionHypothesis =>
      rw [List.forall_mem_cons] at leaves
      rw [List.append_cons] at distinct ⊢
      have absent : ConstraintSet.contains ⟨done⟩ entry = false := by
        refine List.any_eq_false.2 fun other member same => ?_
        have ids : (done.map Expr.id ++ [entry.id]).Nodup := by
          rw [List.map_append] at distinct
          simpa using distinct.of_append_left
        refine (List.nodup_append.1 ids).2.2 other.id (List.mem_map_of_mem member) entry.id
          (List.mem_singleton.2 rfl) ?_
        exact beq_iff_eq.1 same
      exact (bind_of_ok (addConstraint_leaf present leaves.1 absent)).trans
        (inductionHypothesis (done ++ [entry]) leaves.2 distinct)

/-- Twins share their constraints, bind the same contents, and have the same registers. -/
theorem returns_absorb
    {other : ExecState}
    (present : place < execution.states.size)
    (stack_eq : other.stack = (execution.stateAt place).stack)
    (leaves : ∀ entry ∈ (execution.stateAt place).constraints.entries, entry.IsLeaf)
    (distinct : (execution.stateAt place).constraints.Distinct) :
    Returns
      (absorb place (execution.stateAt place) other
        { common := (execution.stateAt place).constraints.entries
          firstOnly := [], secondOnly := [] } [])
      execution fun _ later => later.holdings = execution.holdings := by
  apply Returns.bind
  refine (returns_build (Build.returns_conjunction_nil _)).mono ?_
  rintro _ first ⟨⟨tag, width, rfl⟩, sameFirst⟩
  apply Returns.bind
  refine (returns_build (Build.returns_conjunction_nil _)).mono ?_
  rintro _ second ⟨⟨otherTag, _, rfl⟩, sameSecond⟩
  have same : second.holdings = execution.holdings := sameSecond.trans sameFirst
  have here : second.stateAt place = execution.stateAt place := stateAt_of_holdings same place
  have presentToo : place < second.states.size := by
    rwa [show second.states = execution.states from congrArg Prod.fst same]
  rw [← here] at stack_eq leaves distinct ⊢
  -- The registers, the memory and the constraints are each put back as they were.
  have frames : build (mergeFrames ((second.stateAt place).mergedValue other
      (.const tag (Word.ofBool true))) (second.stateAt place).stack other.stack) second =
        .ok (second.stateAt place).stack second := by
    rw [stack_eq, mergeFrames_self (ExecState.mergedValue_self _ _ _)]
    rfl
  have restored : (second.stateAt place).constraints.entries.forM (addConstraint place)
      (second.setState place { second.stateAt place with constraints := {} }) =
        .ok () second := by
    rw [forM_addConstraint presentToo _ [] leaves distinct]
    exact congrArg _ (setState_self second place)
  have stacked : onState place ({ · with stack := (second.stateAt place).stack }) second =
      .ok () second :=
    congrArg _ (setState_self second place)
  refine Returns.bind_of_ok frames ?_
  refine Returns.bind_of_ok stacked ?_
  refine Returns.bind_of_ok rfl ?_
  refine Returns.bind_of_ok rfl ?_
  refine Returns.bind_of_ok restored ?_
  apply Returns.bind
  refine (returns_build (Build.returns_or_true width _)).mono ?_
  rintro _ third ⟨⟨eitherTag, eitherWidth, rfl⟩, sameThird⟩
  have added : addConstraint place (.const eitherTag (Word.ofBool true)) third =
      .ok () third := by
    rw [addConstraint_of_ok (ConstraintSet.add_true eitherWidth _)]
    exact congrArg _ (setState_self third place)
  refine ⟨⟨_, _, added⟩, ?_⟩
  intro _ later ran
  cases added.symm.trans ran
  exact sameThird.trans same

/-! ## The merge of twins -/

/-- A state and its untouched fork can be merged. -/
theorem Twins.comparable
    (twins : execution.Twins place otherPlace) :
    (execution.stateAt place).comparable (execution.stateAt otherPlace) = true := by
  rw [ExecState.comparable_iff]
  unfold ExecState.outline
  rw [twins.pc_eq, twins.symbolics_eq, twins.stack_eq]

/-- They bind all objects to the same contents. -/
theorem Twins.mutated_eq
    (twins : execution.Twins place otherPlace) :
    (Comparison.ofObjects (execution.spaceOf place).objects
      (execution.spaceOf otherPlace).objects).mutated = some [] := by
  have nothing (objects : Assoc MemoryObject Nat) : Comparison.changed objects objects = [] := by
    induction objects with
    | nil => rfl
    | cons binding rest inductionHypothesis =>
        rw [Comparison.changed, if_pos rfl, inductionHypothesis]
  unfold Space.objects
  rw [twins.bindings_eq, Comparison.mutated_ofObjects, if_pos rfl, nothing]

/-- Twins with constraints that have texts are merged, and stay what they are. -/
theorem Twins.returns_merge
    (twins : execution.Twins place otherPlace)
    (present : place < execution.states.size)
    (leaves : ∀ entry ∈ (execution.stateAt place).constraints.entries, entry.IsLeaf)
    (distinct : (execution.stateAt place).constraints.Distinct)
    (texts : (execution.stateAt place).constraints.HaveTexts) :
    Returns (merge place otherPlace) execution fun answer later =>
      answer = true ∧ later.holdings = execution.holdings := by
  refine Returns.bind_of_ok rfl (Returns.bind_of_ok rfl ?_)
  apply Returns.bind
  refine (returns_trace _ _).mono ?_
  intro _ first sameFirst
  rw [if_pos twins.comparable, twins.constraints_eq]
  apply Returns.bind
  refine (returns_traceOverlap _ texts).mono ?_
  intro _ second sameSecond
  refine Returns.bind_of_ok rfl ?_
  have same : second.holdings = execution.holdings := sameSecond.trans sameFirst
  dsimp only
  rw [spaceAt_of_holdings same, spaceAt_of_holdings same]
  apply Returns.bind
  refine (returns_compareMemory _ _ _).mono ?_
  rintro _ third ⟨rfl, sameThird⟩
  have sameToo : third.holdings = execution.holdings := sameThird.trans same
  have here : third.stateAt place = execution.stateAt place :=
    stateAt_of_holdings sameToo place
  have presentToo : place < third.states.size := by
    rwa [show third.states = execution.states from congrArg Prod.fst sameToo]
  have compared := twins.mutated_eq
  unfold spaceOf at compared
  rw [compared, ConstraintSet.overlap_self]
  have stack_eq := twins.stack_eq
  rw [← here] at leaves distinct stack_eq ⊢
  apply Returns.bind
  refine (returns_absorb presentToo stack_eq leaves distinct).mono ?_
  intro _ fourth sameFourth
  apply Returns.bind
  refine (returns_traceMerged place).mono ?_
  intro _ fifth sameFifth
  exact Returns.pure ⟨rfl, sameFifth.trans (sameFourth.trans sameToo)⟩

/-- Twins with a constraint that has no text are not merged, and stay what they are. -/
theorem Twins.merge_of_not_haveTexts
    (twins : execution.Twins place otherPlace)
    (proper : ∀ entry ∈ (execution.stateAt place).constraints.entries,
      entry.Throughout Expr.Proper)
    (without : ¬ (execution.stateAt place).constraints.HaveTexts) :
    ∃ later, merge place otherPlace execution = .error .tooManyDigits later ∧
      later.holdings = execution.holdings := by
  have traces : Returns (trace (execution.stateAt place).options
      ("-- attempting merge of A:" ++ toString (place + 1) ++ " with B:" ++
        toString (otherPlace + 1) ++ "--")) execution fun _ later =>
          later.holdings = execution.holdings :=
    returns_trace _ _
  obtain ⟨⟨_, told, traced⟩, yields⟩ := traces
  refine ⟨told, ?_, yields traced⟩
  unfold merge
  rw [get_bind, get_bind]
  refine (bind_of_ok traced).trans ?_
  rw [if_pos twins.comparable, twins.constraints_eq]
  exact bind_of_error (traceOverlap_of_not_haveTexts _ proper without)

/-! ## Forks -/

/-- The execution with one fork more behind a state. -/
def deepened (execution : Execution) (place : Nat) : Execution :=
  execution.setState place
    { execution.stateAt place with depth := (execution.stateAt place).depth + 1 }

theorem size_states_deepened
    (execution : Execution)
    (place : Nat) :
    (execution.deepened place).states.size = execution.states.size :=
  size_states_setState _ _ _

/-- The execution after a fork, before anything is told of it. -/
def forked (execution : Execution) (place : Nat) : Execution :=
  let parent := (execution.deepened place).stateAt place
  { (execution.deepened place).pushState
      { parent with
        space := execution.heap.spaces.size, covered := [], coveredNew := false
        unwinding := parent.unwinding.map Unwinding.inherit } with
    heap := execution.heap.copied parent.space }

/-- A fork ends; the child is the next state. -/
theorem returns_fork
    (execution : Execution)
    (place : Nat) :
    Returns (fork place) execution fun child later =>
      child = execution.states.size ∧ later.holdings = (execution.forked place).holdings := by
  have waits (meetings : List Nat) (child : Nat) :
      Returns (meetings.forM fun meeting => addWaiting meeting child)
        (execution.forked place) fun _ later =>
          later.holdings = (execution.forked place).holdings := by
    refine Returns.forM meetings ?_ rfl
    intro meeting _ state same
    exact ⟨⟨_, _, rfl⟩, Yields.modify same⟩
  show Returns (do
    ((execution.deepened place).stateAt place).openMerges.forM fun meeting =>
      addWaiting meeting (execution.deepened place).states.size
    tell _
    pure (execution.deepened place).states.size) (execution.forked place) _
  apply Returns.bind
  refine (waits _ _).mono ?_
  intro _ waited same
  exact Returns.bind_of_ok rfl (Returns.pure ⟨size_states_deepened execution place, same⟩)

/--
A state is what it was, but for one fork more that lies behind it: it has the same registers
and constraints, and binds the same contents, which are what they were.
-/
structure Persists (before after : Execution) (place : Nat) : Prop where
  state_eq : after.stateAt place =
    { before.stateAt place with depth := (before.stateAt place).depth + 1 }
  bindings_eq : (after.spaceOf place).bindings = (before.spaceOf place).bindings
  contents_eq : after.heap.contents = before.heap.contents

/-- What is only told or built takes nothing from what persists. -/
theorem Persists.of_holdings
    {later : Execution}
    (persists : before.Persists after place)
    (same : later.holdings = after.holdings) :
    before.Persists later place := by
  have space : later.spaceOf place = after.spaceOf place := by
    unfold spaceOf
    rw [stateAt_of_holdings same, spaceAt_of_holdings same]
  have contents : later.heap.contents = after.heap.contents :=
    congrArg (fun holdings => holdings.2.1) same
  constructor
  · rw [stateAt_of_holdings same, persists.state_eq]
  · rw [space, persists.bindings_eq]
  · rw [contents, persists.contents_eq]

theorem Twins.of_holdings
    (twins : before.Twins place otherPlace)
    (same : after.holdings = before.holdings) :
    after.Twins place otherPlace := by
  have state := stateAt_of_holdings same
  have space (side : Nat) : after.spaceOf side = before.spaceOf side := by
    unfold spaceOf
    rw [state, spaceAt_of_holdings same]
  constructor
  · rw [state, state, twins.pc_eq]
  · rw [state, state, twins.symbolics_eq]
  · rw [state, state, twins.stack_eq]
  · rw [state, state, twins.constraints_eq]
  · rw [space, space, twins.bindings_eq]

section

variable (present : place < execution.states.size)

include present

theorem stateAt_deepened :
    (execution.deepened place).stateAt place =
      { execution.stateAt place with depth := (execution.stateAt place).depth + 1 } := by
  refine (stateAt_setState _ _ _ place).trans ?_
  rw [if_pos ⟨rfl, present⟩]

theorem stateAt_forked :
    (execution.forked place).stateAt place =
      { execution.stateAt place with depth := (execution.stateAt place).depth + 1 } := by
  refine (stateAt_pushState _ _ place).trans ?_
  rw [size_states_deepened, if_neg (Nat.ne_of_lt present)]
  exact stateAt_deepened present

/-- Forking changes nothing of the parent but its depth and the key of its space. -/
theorem persists_forked :
    execution.Persists (execution.forked place) place := by
  refine ⟨stateAt_forked present, ?_, rfl⟩
  unfold spaceOf
  rw [stateAt_forked present]
  refine (Heap.bindings_copied _ _ _).trans ?_
  rw [stateAt_deepened present]
  exact ite_self _

/-- A fork is a twin of the state it was forked from. -/
theorem twins_forked :
    (execution.forked place).Twins place execution.states.size := by
  have child : (execution.forked place).stateAt execution.states.size =
      { (execution.deepened place).stateAt place with
        space := execution.heap.spaces.size, covered := [], coveredNew := false
        unwinding := ((execution.deepened place).stateAt place).unwinding.map
          Unwinding.inherit } := by
    refine (stateAt_pushState _ _ _).trans ?_
    rw [size_states_deepened, if_pos rfl]
  have bindings : ((execution.forked place).spaceOf execution.states.size).bindings =
      (execution.spaceOf place).bindings := by
    unfold spaceOf
    rw [child]
    refine (Heap.bindings_copied _ _ _).trans ?_
    rw [if_pos rfl, stateAt_deepened present]
  constructor
  · rw [child, stateAt_forked present, stateAt_deepened present]
  · rw [child, stateAt_forked present, stateAt_deepened present]
  · rw [child, stateAt_forked present, stateAt_deepened present]
  · rw [child, stateAt_forked present, stateAt_deepened present]
  · rw [bindings, (persists_forked present).bindings_eq]

end

/-- What there is after a fork. -/
theorem exists_fork
    (present : place < execution.states.size) :
    ∃ child middle, fork place execution = .ok child middle ∧ place < middle.states.size ∧
      middle.Twins place child ∧ execution.Persists middle place := by
  obtain ⟨⟨child, middle, forks⟩, yields⟩ := returns_fork execution place
  obtain ⟨rfl, same⟩ := yields forks
  refine ⟨_, middle, forks, ?_, (twins_forked present).of_holdings same,
    (persists_forked present).of_holdings same⟩
  have states : middle.states = (execution.forked place).states := congrArg Prod.fst same
  rw [states, forked, pushState, Array.size_push, size_states_deepened]
  exact Nat.lt_succ_of_lt present

/--
A state is forked, and merged with the fork.  The merge is made, and the state is what it was,
if no constraint shows an integer with too many digits for a text; otherwise the merge ends at
the constraint that it cannot write, and the state is what it was too.
-/
theorem merge_fork
    {workshop : Workshop}
    (reached : workshop.Reachable)
    (present : place < execution.states.size)
    (made : (execution.stateAt place).constraints.Made
      fun other => other ∈ workshop.expressions ∧ other.WellTyped) :
    ∃ child middle, fork place execution = .ok child middle ∧
      ((execution.stateAt place).constraints.AreShort →
        ∃ later, merge place child middle = .ok true later ∧
          execution.Persists later place) ∧
      (¬ (execution.stateAt place).constraints.AreShort →
        ∃ later, merge place child middle = .error .tooManyDigits later ∧
          execution.Persists later place) := by
  obtain ⟨child, middle, forks, presentToo, twins, persists⟩ := exists_fork present
  have constraints : (middle.stateAt place).constraints =
      (execution.stateAt place).constraints := by
    rw [persists.state_eq]
  have neat := made.neat reached
  rw [← ConstraintSet.haveTexts_iff neat.registered]
  rw [← constraints] at neat ⊢
  refine ⟨child, middle, forks, ?_, ?_⟩
  · intro texts
    obtain ⟨⟨answer, later, merges⟩, holds⟩ :=
      twins.returns_merge presentToo neat.leaves neat.distinct texts
    obtain ⟨rfl, unchanged⟩ := holds merges
    exact ⟨later, merges, persists.of_holdings unchanged⟩
  · intro without
    have proper : ∀ entry ∈ (middle.stateAt place).constraints.entries,
        entry.Throughout Expr.Proper :=
      fun entry member => (neat.registered entry member).proper
    obtain ⟨later, fails, unchanged⟩ := twins.merge_of_not_haveTexts proper without
    exact ⟨later, fails, persists.of_holdings unchanged⟩

end Execution

namespace OverlappingPair

open TwoBounds (workshop reachable above below twice)

def first : MemoryObject :=
  { key := 0, number := 7, address := 0, size := 2, name := "p", allocSite := none
    isLocal := false }

/-- An object of the same number that begins within the first. -/
def second : MemoryObject :=
  { first with key := 1, address := 1, name := "q" }

/-- One state, which binds the two objects, one of them read-only, under two constraints. -/
def execution : Execution where
  heap :=
    { contents := #[
        { object := first, readOnly := true, owner := 1, bytes := [TwoBounds.byte] },
        { object := second, readOnly := false, owner := 1, bytes := [TwoBounds.low] }]
      spaces := #[{ key := 1, bindings := [(first, 0), (second, 1)] }]
      nextKey := 2 }
  states := #[
    { (default : ExecState) with
      patch := some 3, space := 0, constraints := ⟨[above, below]⟩
      symbolics := [(first, TwoBounds.array)] }]

theorem made :
    (execution.stateAt 0).constraints.Made
      fun other => other ∈ workshop.expressions ∧ other.WellTyped := by
  have added : final (ConstraintSet.add twice) (final (ConstraintSet.add above) .empty) =
    (execution.stateAt 0).constraints := rfl
  rw [← added]
  obtain ⟨_, typedAbove, typedTwice⟩ := TwoBounds.wellTyped
  refine .add (.add .empty ⟨?_, typedAbove⟩) ⟨?_, typedTwice⟩
  · simp [TwoBounds.expressions_workshop]
  · simp [TwoBounds.expressions_workshop]

theorem areShort :
    (execution.stateAt 0).constraints.AreShort := by
  have entries : (execution.stateAt 0).constraints.entries = [above, below] := rfl
  intro entry member
  rw [entries] at member
  simp only [List.mem_cons, List.not_mem_nil, or_false] at member
  rcases member with rfl | rfl
  · simp [above, TwoBounds.low, TwoBounds.byte, TwoBounds.place, Expr.Short, Expr.numbers,
      Expr.width, Expr.tag, Integer.lt_limit]
  · simp [below, TwoBounds.high, TwoBounds.byte, TwoBounds.place, Expr.Short, Expr.numbers,
      Expr.width, Expr.tag, Integer.lt_limit]

end OverlappingPair

open Execution OverlappingPair in
/-- Two constraints and two overlapping objects, one of them read-only, are left alone. -/
theorem merge_fork_overlappingPair :
    ∃ child middle later, fork 0 execution = .ok child middle ∧
      merge 0 child middle = .ok true later ∧
        (later.stateAt 0).constraints.entries = [TwoBounds.above, TwoBounds.below] ∧
          (later.spaceOf 0).bindings = [(first, 0), (second, 1)] ∧
            later.heap.contents = execution.heap.contents := by
  obtain ⟨child, middle, forks, merges, _⟩ :=
    merge_fork TwoBounds.reachable (show 0 < execution.states.size by decide) made
  obtain ⟨later, merged, persists⟩ := merges areShort
  refine ⟨child, middle, later, forks, merged, ?_, ?_, persists.contents_eq⟩
  · rw [persists.state_eq]
    rfl
  · rw [persists.bindings_eq]
    rfl

open Execution in
-- A constraint with an integer that is too long for a text ends the merge.
example :
    (match (fork 0 >>= merge 0) { states := #[{ (default : ExecState) with
        constraints := ⟨[.binary ⟨3, 1, false⟩ .ult (.const ⟨1, 20000, false⟩ Integer.limit)
          (.const ⟨2, 20000, false⟩ 0)]⟩ }] } with
      | .ok _ _ => false
      | .error fault _ => fault matches .tooManyDigits) = true := by decide +kernel

end Diverge
