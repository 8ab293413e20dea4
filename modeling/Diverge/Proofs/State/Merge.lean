import Diverge.Proofs.State.Comparing
import Diverge.Proofs.State.Merging

/-!
# One merge as a whole

`Execution.Merged` says what a merge leaves behind: the receiver, with registers,
images and constraints joined under a guard, and everything else as it was.  The
guard is true where the constraints of the receiver hold, and where those of the
other state hold and the guard is true, so do those of the receiver.  A merge of
states that cannot be merged changes nothing but what is told
(`Execution.moves_merge`).
-/

namespace Diverge

open Stateful

/-! ## Taking constraints in -/

namespace Execution

/-- The execution with another heap and another state at a place. -/
def altered
    (execution : Execution) (heap : Heap) (place : Nat) (state : ExecState) : Execution :=
  { execution with heap, states := execution.states.setIfInBounds place state }

section

variable {histories : List Updates} {execution : Execution} {heap : Heap} {place : Nat}

theorem altered_self
    (execution : Execution)
    (place : Nat) :
    execution.altered execution.heap place (execution.stateAt place) = execution := by
  have same : execution.states.setIfInBounds place (execution.stateAt place) =
      execution.states := by
    refine Array.ext_getElem? fun index => ?_
    rw [Array.getElem?_setIfInBounds]
    split
    · rename_i here
      subst here
      split
      · rename_i inside
        simp [stateAt, inside]
      · rename_i outside
        simp [outside]
    · rfl
  unfold altered
  rw [same]

theorem setState_altered
    (execution : Execution)
    (heap : Heap)
    (place : Nat)
    (state later : ExecState) :
    (execution.altered heap place state).setState place later =
      execution.altered heap place later := by
  simp [altered, setState]

theorem stateAt_altered
    (present : place < execution.states.size)
    (state : ExecState) :
    (execution.altered heap place state).stateAt place = state := by
  have found := stateAt_setState execution place state place
  rw [if_pos ⟨rfl, present⟩] at found
  exact found

/-- Constraints that are added one after another. -/
theorem moves_addConstraints
    {safe : Prop}
    (sound : execution.Sound histories)
    (present : place < execution.states.size)
    {constraints : List Expr}
    (registered : ∀ constraint ∈ constraints,
      constraint.Registered histories execution.heap.table)
    (possible : safe → ∀ constraint ∈ constraints, constraint.IsPossible) :
    Moves (Evolves histories) (constraints.forM (addConstraint place)) execution
      (fun _ later => ∃ set,
        later = execution.altered execution.heap place
          { execution.stateAt place with constraints := set } ∧
        ConstraintSet.Takes constraints (execution.stateAt place).constraints set)
      safe := by
  induction constraints generalizing execution with
  | nil =>
      exact Moves.pure (Evolves.refl sound) ⟨(execution.stateAt place).constraints,
        (altered_self execution place).symm, ConstraintSet.Takes.refl _⟩
  | cons constraint rest inductionHypothesis =>
      have registeredFirst := registered constraint List.mem_cons_self
      refine Moves.bind Evolves.trans ((moves_addConstraint sound registeredFirst
        fun isSafe => possible isSafe constraint List.mem_cons_self).mono ?_)
      rintro _ middle evolves ⟨set, added, rfl⟩
      refine (inductionHypothesis evolves.sound (by simpa using present)
        (fun other member => registered other (List.mem_cons_of_mem _ member))
        (fun isSafe other member =>
          possible isSafe other (List.mem_cons_of_mem _ member))).mono ?_
      have here : (execution.setState place { execution.stateAt place with
          constraints := set }).stateAt place =
            { execution.stateAt place with constraints := set } :=
        stateAt_altered present _
      rw [here]
      rintro _ later _ ⟨final, rfl, takes⟩
      refine ⟨final, setState_altered _ _ _ _ _, ?_⟩
      exact (ConstraintSet.takes_add sound.heap.supports (sound.states place).constraints
        registeredFirst added).trans takes

/-- The constraints that a merge leaves: what is shared, and one side or the other. -/
theorem moves_replaceConstraints
    {safe : Prop}
    (sound : execution.Sound histories)
    (present : place < execution.states.size)
    {shared : List Expr}
    {first second : Expr}
    (registered : ∀ constraint ∈ shared,
      constraint.Registered histories execution.heap.table)
    (registeredFirst : first.Registered histories execution.heap.table)
    (registeredSecond : second.Registered histories execution.heap.table)
    (possible : safe → ∀ constraint ∈ shared, constraint.IsPossible)
    (guardFirst : safe → first.IsGuard)
    (guardSecond : safe → second.IsGuard) :
    Moves (Evolves histories)
      (do
        onState place ({ · with constraints := {} })
        shared.forM (addConstraint place)
        addConstraint place (← build (Build.binary .or first second)))
      execution
      (fun _ later => ∃ set table either,
        later = execution.altered { execution.heap with table } place
          { execution.stateAt place with constraints := set } ∧
        Build.Disjoins first second either ∧
          ConstraintSet.Takes (shared ++ [either]) {} set) safe := by
  have soundState := sound.states place
  have emptied : ExecState.Sound histories execution.heap.table
      { execution.stateAt place with constraints := {} } :=
    ⟨soundState.registers, fun _ member => (nomatch member),
      fun _ member => (nomatch member)⟩
  refine Moves.bind Evolves.trans ((moves_onState sound emptied rfl).mono ?_)
  rintro _ _ evolves rfl
  have here : (execution.setState place { execution.stateAt place with
      constraints := {} }).stateAt place =
        { execution.stateAt place with constraints := {} } :=
    stateAt_altered present _
  refine Moves.bind Evolves.trans ((moves_addConstraints evolves.sound
    (by simpa using present) registered possible).mono ?_)
  rw [here]
  rintro _ _ evolvesToo ⟨set, rfl, takes⟩
  refine Moves.bind Evolves.trans ((moves_build evolvesToo.sound (Build.moves_or
    sound.heap.supports registeredFirst registeredSecond guardFirst guardSecond)).mono ?_)
  rintro either last evolvesLast ⟨⟨registeredEither, disjoins, guardEither⟩, same⟩
  obtain ⟨table, rfl⟩ : ∃ table, last = execution.altered { execution.heap with table }
      place { execution.stateAt place with constraints := set } := by
    refine ⟨last.heap.table, same.trans ?_⟩
    simp only [altered, setState, Array.setIfInBounds_setIfInBounds]
  refine (moves_addConstraint evolvesLast.sound registeredEither fun isSafe =>
    (guardEither isSafe).2).mono ?_
  have soundLast := evolvesLast.sound.states place
  rw [stateAt_altered present] at soundLast ⊢
  rintro _ _ _ ⟨final, added, rfl⟩
  refine ⟨final, table, either, setState_altered _ _ _ _ _, disjoins, ?_⟩
  exact takes.trans (ConstraintSet.takes_add evolvesLast.sound.heap.supports
    soundLast.constraints registeredEither added)

end

end Execution

/-! ## Taking a state in -/

/-- The constraints of a merge, and when its guard is true. -/
structure ConstraintSet.Reconciled
    (guard : Expr) (first second merged : ConstraintSet) : Prop where
  inherits : ∀ property, Expr.Logical property →
    (∀ entry ∈ first.entries, property entry) →
      (∀ entry ∈ second.entries, property entry) → ∀ entry ∈ merged.entries, property entry
  holds_iff : ∀ assignment, first.AreConditions assignment →
    second.AreConditions assignment →
      (merged.Holds assignment ↔ first.Holds assignment ∨ second.Holds assignment)
  judged : ∀ assignment, first.AreConditions assignment →
    ∃ truth, guard.Judged assignment truth ∧
      (first.Holds assignment → truth = true) ∧
        (truth = true → second.Holds assignment → first.Holds assignment)

/--
The common constraints and the disjunction of what remains on either side stand for one set or
the other.
-/
theorem ConstraintSet.reconciled_of_overlap
    {histories : List Updates}
    {table : Table}
    {first second merged : ConstraintSet}
    {guard guardOther either : Expr}
    (supports : table.Supports histories)
    (registeredFirst : first.Registered histories table)
    (registeredSecond : second.Registered histories table)
    (conjoins : Build.Conjoins (first.overlap second).firstOnly guard)
    (conjoinsOther : Build.Conjoins (first.overlap second).secondOnly guardOther)
    (disjoins : Build.Disjoins guard guardOther either)
    (takes : Takes ((first.overlap second).common ++ [either]) {} merged) :
    Reconciled guard first second merged := by
  have parts := forall_first_iff supports registeredFirst registeredSecond
  have partsOther := forall_second_iff supports registeredFirst registeredSecond
  constructor
  · intro property logical ofFirst ofSecond
    obtain ⟨ofCommon, ofFirstOnly⟩ := (parts property).1 ofFirst
    obtain ⟨_, ofSecondOnly⟩ := (partsOther property).1 ofSecond
    refine takes.inherits property logical (fun _ member => nomatch member) ?_
    rw [List.forall_mem_append, List.forall_mem_singleton]
    exact ⟨ofCommon, disjoins.inherits property logical
      (conjoins.inherits property logical ofFirstOnly)
      (conjoinsOther.inherits property logical ofSecondOnly)⟩
  · intro assignment conditions conditionsOther
    have logical := Expr.logical_condition assignment
    obtain ⟨ofCommon, ofFirstOnly⟩ := (parts _).1 conditions
    obtain ⟨_, ofSecondOnly⟩ := (partsOther _).1 conditionsOther
    have conditionGuard := conjoins.inherits _ logical ofFirstOnly
    have conditionOther := conjoinsOther.inherits _ logical ofSecondOnly
    have conditionEither := disjoins.inherits _ logical conditionGuard conditionOther
    have holdsFirst := parts (·.Holds assignment)
    have holdsSecond := partsOther (·.Holds assignment)
    rw [takes.holds_iff assignment, List.forall_mem_append, List.forall_mem_singleton,
      disjoins.holds_iff assignment conditionGuard conditionOther,
      conjoins.holds_iff assignment ofFirstOnly,
      conjoinsOther.holds_iff assignment ofSecondOnly, and_or_left]
    · rw [and_iff_right (show ConstraintSet.Holds assignment {} from
        fun _ member => nomatch member)]
      exact or_congr holdsFirst.symm holdsSecond.symm
    · rw [List.forall_mem_append, List.forall_mem_singleton]
      exact ⟨ofCommon, conditionEither⟩
  · intro assignment conditions
    obtain ⟨_, ofFirstOnly⟩ := (parts _).1 conditions
    have conditionGuard := conjoins.inherits _ (Expr.logical_condition assignment) ofFirstOnly
    have holdsGuard := conjoins.holds_iff assignment ofFirstOnly
    have holdsFirst := parts (·.Holds assignment)
    have holdsSecond := partsOther (·.Holds assignment)
    obtain ⟨truth, judged, holdsTruth⟩ := conditionGuard.judged
    refine ⟨truth, judged, ?_, ?_⟩
    · intro holds
      exact holdsTruth.1 (holdsGuard.2 (holdsFirst.1 holds).2)
    · intro isTrue holds
      exact holdsFirst.2 ⟨(holdsSecond.1 holds).1, holdsGuard.1 (holdsTruth.2 isTrue)⟩

/-- What spares a merge its faults, `objects` being those that are merged. -/
structure ExecState.Fits
    (receiver other : ExecState)
    (heap : Heap)
    (objects : List MemoryObject) : Prop where
  guards : ∀ entry ∈ receiver.constraints.entries, entry.IsGuard
  guardsOther : ∀ entry ∈ other.constraints.entries, entry.IsGuard
  numbered : receiver.patch ≠ none ∧ other.patch ≠ none
  filled : ∀ object ∈ objects, heap.Matches receiver.space other.space object

namespace Execution

/-- What a merge leaves behind, `objects` being those that were merged. -/
structure Merged
    (guard : Expr)
    (objects : List MemoryObject)
    (place otherPlace : Nat)
    (before after : Execution) : Prop where
  states_eq : after.states = before.states.setIfInBounds place
    { before.stateAt place with
      stack := (after.stateAt place).stack
      constraints := (after.stateAt place).constraints }
  shapes_eq : (after.stateAt place).stack.map Frame.shape =
    (before.stateAt place).stack.map Frame.shape
  registers : ∀ frame register : Nat, guard.Joined
    ((before.stateAt place).register? frame register)
    ((before.stateAt otherPlace).register? frame register)
    ((after.stateAt place).register? frame register)
  memory : before.heap.Absorbs guard (before.stateAt place).space
    (before.stateAt otherPlace).space objects after.heap
  reconciled : ConstraintSet.Reconciled guard (before.stateAt place).constraints
    (before.stateAt otherPlace).constraints (after.stateAt place).constraints

section

variable {histories : List Updates} {execution : Execution} {place otherPlace : Nat}

theorem Merged.stateAt_eq
    {guard : Expr}
    {objects : List MemoryObject}
    {later : Execution}
    (merged : Merged guard objects place otherPlace execution later)
    (other : Nat) :
    later.stateAt other =
      if other = place ∧ place < execution.states.size then
        { execution.stateAt place with
          stack := (later.stateAt place).stack
          constraints := (later.stateAt place).constraints }
      else execution.stateAt other := by
  have found := stateAt_setState execution place { execution.stateAt place with
    stack := (later.stateAt place).stack
    constraints := (later.stateAt place).constraints } other
  rw [← found]
  exact congrArg (fun states : Array ExecState => states.getD other default)
    merged.states_eq

theorem Merged.space_eq
    {guard : Expr}
    {objects : List MemoryObject}
    {later : Execution}
    (merged : Merged guard objects place otherPlace execution later)
    (other : Nat) :
    (later.stateAt other).space = (execution.stateAt other).space := by
  rw [merged.stateAt_eq]
  split
  · rename_i here
    rw [here.1]
  · rfl

/--
Taking another state in keeps the execution sound and merges registers, memory and constraints
under one guard.
-/
theorem moves_absorb
    {safe : Prop}
    (sound : execution.Sound histories)
    (present : place < execution.states.size)
    {objects : List MemoryObject}
    (apart : objects ≠ [] →
      (execution.stateAt otherPlace).space ≠ (execution.stateAt place).space)
    (once : objects.Nodup)
    (fits : safe → (execution.stateAt place).Fits (execution.stateAt otherPlace)
      execution.heap objects) :
    Moves (Evolves histories)
      (absorb place (execution.stateAt place) (execution.stateAt otherPlace)
        ((execution.stateAt place).constraints.overlap
          (execution.stateAt otherPlace).constraints) objects)
      execution
      (fun _ later => ∃ guard, Merged guard objects place otherPlace execution later)
      safe := by
  have trans := @Evolves.trans histories
  have receiver := sound.states place
  have other := sound.states otherPlace
  have supports := sound.heap.supports
  have parts := ConstraintSet.forall_first_iff supports receiver.constraints
    other.constraints
  have partsOther := ConstraintSet.forall_second_iff supports receiver.constraints
    other.constraints
  obtain ⟨registeredCommon, registeredFirst⟩ := (parts _).1 receiver.constraints
  obtain ⟨_, registeredSecond⟩ := (partsOther _).1 other.constraints
  refine Moves.bind trans ((moves_build sound (Build.moves_conjunction supports _
    registeredFirst fun isSafe => ((parts _).1 (fits isSafe).guards).2)).mono ?_)
  rintro guard first evolves ⟨⟨registeredGuard, conjoins, isGuard⟩, same⟩
  obtain ⟨table, rfl⟩ : ∃ table, first =
    { execution with heap := { execution.heap with table } } := ⟨_, same⟩
  refine Moves.bind trans ((moves_build evolves.sound (Build.moves_conjunction
    evolves.sound.heap.supports _
    (fun entry member => (registeredSecond entry member).grow evolves.grows)
    fun isSafe => ((partsOther _).1 (fits isSafe).guardsOther).2)).mono ?_)
  rintro guardOther second evolvesToo ⟨⟨registeredOther, conjoinsOther, isGuardOther⟩, sameToo⟩
  obtain ⟨tableToo, rfl⟩ : ∃ table, second =
    { execution with heap := { execution.heap with table } } := ⟨_, sameToo⟩
  have evolvesBoth := trans evolves evolvesToo
  have guardThere := registeredGuard.grow evolvesToo.grows
  have merger := (execution.stateAt place).merger_mergedValue
    (execution.stateAt otherPlace) evolvesBoth.sound.heap.supports guardThere
    fun isSafe => (fits isSafe).numbered
  refine Moves.bind trans ((moves_build evolvesBoth.sound (moves_mergeFrames merger
    (execution.stateAt place).stack (execution.stateAt otherPlace).stack
    (receiver.grow evolvesBoth.grows).registers
    (other.grow evolvesBoth.grows).registers)).mono ?_)
  rintro stack third evolvesThird ⟨⟨registeredStack, shapes, joined⟩, sameThird⟩
  obtain ⟨tableThird, rfl⟩ : ∃ table, third =
    { execution with heap := { execution.heap with table } } := ⟨_, sameThird⟩
  have receiverThird := (receiver.grow evolvesBoth.grows).grow evolvesThird.grows
  refine Moves.bind trans ((moves_onState evolvesThird.sound
    ⟨registeredStack, receiverThird.constraints, receiverThird.flat⟩ rfl).mono ?_)
  rintro _ _ evolvesStack rfl
  have mergerThird := merger.grow evolvesThird.grows
  refine Moves.bind trans ((moves_onHeap evolvesStack.sound (moves_mergeObjects
    evolvesStack.sound.heap mergerThird apart once
    fun isSafe => (fits isSafe).filled)).mono ?_)
  rintro _ fourth evolvesHeap ⟨absorbed, sameFourth⟩
  obtain ⟨heap, rfl⟩ : ∃ heap, fourth = execution.altered heap place
    { execution.stateAt place with stack } := ⟨_, sameFourth⟩
  have grows := (evolvesThird.grows.trans evolvesStack.grows).trans evolvesHeap.grows
  refine (moves_replaceConstraints evolvesHeap.sound (by simpa [altered] using present)
    (fun entry member => (registeredCommon entry member).grow
      (evolvesBoth.grows.trans grows))
    (guardThere.grow grows) (registeredOther.grow grows)
    (fun isSafe entry member => (((parts _).1 (fits isSafe).guards).1 entry member).2)
    isGuard isGuardOther).mono ?_
  rw [stateAt_altered present]
  rintro _ last _ ⟨set, tableLast, either, sameLast, disjoins, takes⟩
  obtain rfl : last = execution.altered { heap with table := tableLast } place
      { execution.stateAt place with stack, constraints := set } := by
    rw [sameLast]
    exact setState_altered _ _ _ _ _
  have here : (execution.altered { heap with table := tableLast } place
      { execution.stateAt place with stack, constraints := set }).stateAt place =
        { execution.stateAt place with stack, constraints := set } :=
    stateAt_altered present _
  refine ⟨guard, ?_⟩
  constructor
  · rw [here]
    rfl
  · rw [here]
    exact shapes
  · rw [here]
    exact joined
  · exact ⟨absorbed.elsewhere, absorbed.keys_eq, absorbed.image_merged, absorbed.image_eq⟩
  · rw [here]
    exact ConstraintSet.reconciled_of_overlap supports receiver.constraints
      other.constraints conjoins conjoinsOther disjoins takes

/-! ## What is told -/

/-- Nothing changed but what was told. -/
def Tells (before after : Execution) : Prop :=
  after = { before with log := after.log }

theorem Tells.refl
    (execution : Execution) :
    execution.Tells execution := rfl

theorem Tells.trans
    ⦃first second third : Execution⦄
    (before : first.Tells second)
    (after : second.Tells third) :
    first.Tells third := by
  unfold Tells at before after ⊢
  rw [after, before]

theorem Tells.sound
    {later : Execution}
    (told : execution.Tells later)
    (sound : execution.Sound histories) :
    later.Sound histories := by
  rw [told]
  exact (sound.withLog _).sound

/-- What is told before and after a merge does not change what was merged. -/
theorem Merged.of_tells
    {guard : Expr}
    {objects : List MemoryObject}
    {middle last after : Execution}
    (told : execution.Tells middle)
    (merged : Merged guard objects place otherPlace middle last)
    (toldToo : last.Tells after) :
    Merged guard objects place otherPlace execution after := by
  rw [told] at merged
  rw [toldToo]
  exact ⟨merged.states_eq, merged.shapes_eq, merged.registers,
    ⟨merged.memory.elsewhere, merged.memory.keys_eq, merged.memory.image_merged,
      merged.memory.image_eq⟩, merged.reconciled⟩

section

variable {safe : Prop}

theorem moves_trace
    (sound : execution.Sound histories)
    (options : Options)
    (line : String) :
    Moves (Evolves histories) (trace options line) execution
      (fun _ later => execution.Tells later) safe := by
  unfold trace
  split
  · exact Moves.modify (sound.withLog _) rfl
  · exact Moves.pure (Evolves.refl sound) (Tells.refl execution)

theorem moves_traceText
    (sound : execution.Sound histories)
    (options : Options)
    (label : String)
    (written : Except Fault String) :
    Moves (Evolves histories) (traceText options label written) execution
      (fun _ later => execution.Tells later) safe := by
  cases written with
  | ok text => exact moves_trace sound options _
  | error fault => exact Moves.pure (Evolves.refl sound) (Tells.refl execution)

theorem moves_traceList
    (sound : execution.Sound histories)
    (options : Options)
    (label : String)
    {expressions : List Expr}
    (texts : safe → ∀ expression ∈ expressions, expression.HasText) :
    Moves (Evolves histories) (traceList options label expressions) execution
      (fun _ later =>
        (∀ expression ∈ expressions, expression.HasText) ∧ execution.Tells later) safe := by
  refine Moves.bind Evolves.trans (Moves.ofExcept_of_total (Evolves.refl sound)
    (fun isSafe => (renderList_ends_iff expressions).2 (texts isSafe)) ?_)
  intro text rendered
  refine (moves_trace sound options _).mono ?_
  intro _ later _ told
  exact ⟨(renderList_ends_iff expressions).1 ⟨text, rendered⟩, told⟩

/-- Whether or not it is told, what two sets hold must have a text. -/
theorem moves_traceOverlap
    (sound : execution.Sound histories)
    (options : Options)
    {first second : ConstraintSet}
    (registeredFirst : first.Registered histories execution.heap.table)
    (registeredSecond : second.Registered histories execution.heap.table)
    (texts : safe → first.HaveTexts ∧ second.HaveTexts) :
    Moves (Evolves histories) (traceOverlap options (first.overlap second)) execution
      (fun _ later => (first.HaveTexts ∧ second.HaveTexts) ∧ execution.Tells later)
      safe := by
  have parts := ConstraintSet.forall_first_iff sound.heap.supports registeredFirst
    registeredSecond Expr.HasText
  have partsOther := ConstraintSet.forall_second_iff sound.heap.supports registeredFirst
    registeredSecond Expr.HasText
  refine Moves.bind Evolves.trans ((moves_traceList sound _ _
    fun isSafe => (parts.1 (texts isSafe).1).1).mono ?_)
  rintro _ before evolves ⟨ofCommon, told⟩
  refine Moves.bind Evolves.trans ((moves_traceList evolves.sound _ _
    fun isSafe => (parts.1 (texts isSafe).1).2).mono ?_)
  rintro _ middle evolvesToo ⟨ofFirst, toldToo⟩
  refine (moves_traceList evolvesToo.sound _ _
    fun isSafe => (partsOther.1 (texts isSafe).2).2).mono ?_
  rintro _ after _ ⟨ofSecond, toldLast⟩
  exact ⟨⟨parts.2 ⟨ofCommon, ofFirst⟩, partsOther.2 ⟨ofCommon, ofSecond⟩⟩,
    (told.trans toldToo).trans toldLast⟩

/-- A comparison tells what it finds, and finds what differs. -/
theorem moves_compareMemory
    (sound : execution.Sound histories)
    (options : Options)
    (left right : Space) :
    Moves (Evolves histories) (compareMemory options left right) execution
      (fun compared later =>
        compared = (Comparison.ofObjects left.objects right.objects).mutated ∧
          execution.Tells later) safe := by
  refine Moves.bind Evolves.trans ((moves_trace sound _ _).mono ?_)
  intro _ first evolves told
  refine Moves.bind Evolves.trans ((moves_traceText evolves.sound _ _ _).mono ?_)
  intro _ second evolvesToo toldToo
  refine Moves.bind Evolves.trans ((moves_traceText evolvesToo.sound _ _ _).mono ?_)
  intro _ third evolvesLast toldLast
  have before := (told.trans toldToo).trans toldLast
  refine Moves.bind Evolves.trans ((Moves.forM Evolves.trans
    (fun state toldThere => Evolves.refl (toldThere.sound sound)) _ ?_ before).mono ?_)
  · intro line _ state toldThere
    exact (moves_trace (toldThere.sound sound) _ _).mono fun _ _ _ toldHere =>
      toldThere.trans toldHere
  · intro _ last _ toldAll
    exact Moves.pure (Evolves.refl (toldAll.sound sound)) ⟨rfl, toldAll⟩

theorem moves_traceMerged
    (sound : execution.Sound histories)
    (place : Nat) :
    Moves (Evolves histories) (traceMerged place) execution
      (fun _ later => execution.Tells later) safe := by
  unfold traceMerged Moves
  rw [get_bind]
  exact moves_traceText sound _ _ _

end

/-! ## The merge -/

/-- The objects that a state lists. -/
def objectsOf (execution : Execution) (place : Nat) : List MemoryObject :=
  (execution.heap.spaceAt (execution.stateAt place).space).objects.map Prod.fst

/-- The objects that two states bind to different contents. -/
def differing (execution : Execution) (place otherPlace : Nat) : List MemoryObject :=
  Comparison.changed
    (execution.heap.spaceAt (execution.stateAt place).space).objects
    (execution.heap.spaceAt (execution.stateAt otherPlace).space).objects

/-- The states stand at the same place and list the same objects. -/
structure Mergeable (execution : Execution) (place otherPlace : Nat) : Prop where
  comparable : (execution.stateAt place).comparable (execution.stateAt otherPlace) = true
  objects_eq : execution.objectsOf place = execution.objectsOf otherPlace

theorem nodup_differing
    (sound : execution.Sound histories)
    (place otherPlace : Nat) :
    (execution.differing place otherPlace).Nodup :=
  (Comparison.changed_sublist _ _).nodup
    (Space.hasOnce_objects (sound.heap.owned.once _))

/-- The objects that differ are those that the two spaces bind to different contents. -/
theorem Mergeable.mem_differing
    (mergeable : execution.Mergeable place otherPlace)
    (sound : execution.Sound histories)
    (object : MemoryObject) :
    object ∈ execution.differing place otherPlace ↔
      execution.heap.find? (execution.stateAt place).space object ≠
        execution.heap.find? (execution.stateAt otherPlace).space object := by
  have once (space : Nat) := sound.heap.owned.once space
  unfold differing Heap.find?
  rw [Comparison.mem_changed mergeable.objects_eq (Space.hasOnce_objects (once _)),
    Space.get?_objects (once _), Space.get?_objects (once _)]

/-- States in one space do not differ in memory. -/
theorem Mergeable.space_ne
    (mergeable : execution.Mergeable place otherPlace)
    (sound : execution.Sound histories)
    (some : execution.differing place otherPlace ≠ []) :
    (execution.stateAt otherPlace).space ≠ (execution.stateAt place).space := by
  intro same
  obtain ⟨object, member⟩ := List.exists_mem_of_ne_nil _ some
  refine (mergeable.mem_differing sound object).1 member ?_
  rw [same]

/-- What the two states of a merge must be like for it to end without a fault. -/
structure Smooth (execution : Execution) (place otherPlace : Nat) : Prop where
  fits : (execution.stateAt place).Fits (execution.stateAt otherPlace) execution.heap
    (execution.differing place otherPlace)
  texts : (execution.stateAt place).constraints.HaveTexts ∧
    (execution.stateAt otherPlace).constraints.HaveTexts

/-- A merge of states that can be merged, and of states that cannot. -/
theorem moves_merge
    {safe : Prop}
    (sound : execution.Sound histories)
    (present : place < execution.states.size)
    (otherPlace : Nat)
    (smooth : safe → execution.Smooth place otherPlace) :
    Moves (Evolves histories) (merge place otherPlace) execution
      (fun merged later =>
        if merged then
          execution.Mergeable place otherPlace ∧
            ((execution.stateAt place).constraints.HaveTexts ∧
              (execution.stateAt otherPlace).constraints.HaveTexts) ∧
            ∃ guard, Merged guard (execution.differing place otherPlace) place otherPlace
              execution later
        else ¬ execution.Mergeable place otherPlace ∧ execution.Tells later) safe := by
  have trans := @Evolves.trans histories
  unfold merge Moves
  rw [get_bind, get_bind]
  refine Moves.bind trans ((moves_trace sound _ _).mono ?_)
  intro _ first evolves told
  by_cases comparable :
      (execution.stateAt place).comparable (execution.stateAt otherPlace) = true
  · rw [if_pos comparable]
    refine Moves.bind trans ((moves_traceOverlap evolves.sound _
      ((sound.states place).grow evolves.grows).constraints
      ((sound.states otherPlace).grow evolves.grows).constraints
      fun isSafe => (smooth isSafe).texts).mono ?_)
    rintro _ second evolvesToo ⟨texts, toldToo⟩
    obtain ⟨log, rfl⟩ : ∃ log, second = { execution with log } := ⟨_, told.trans toldToo⟩
    unfold Moves
    rw [get_bind]
    refine Moves.bind trans ((moves_compareMemory evolvesToo.sound _ _ _).mono ?_)
    rintro compared third evolvesLast ⟨rfl, toldLast⟩
    obtain ⟨logLast, rfl⟩ : ∃ log, third = { execution with log } := ⟨_, toldLast⟩
    rw [Comparison.mutated_ofObjects]
    by_cases keys : execution.objectsOf place = execution.objectsOf otherPlace
    · have mergeable : execution.Mergeable place otherPlace := ⟨comparable, keys⟩
      unfold objectsOf at keys
      rw [if_pos keys]
      refine Moves.bind trans ((moves_absorb evolvesLast.sound present
        (mergeable.space_ne sound) (nodup_differing sound place otherPlace)
        fun isSafe => (smooth isSafe).fits).mono ?_)
      rintro _ fourth evolvesMerged ⟨guard, merged⟩
      refine Moves.bind trans ((moves_traceMerged evolvesMerged.sound place).mono ?_)
      intro _ last evolvesEnd toldEnd
      refine Moves.pure (Evolves.refl evolvesEnd.sound) ?_
      rw [if_pos rfl]
      have toldBefore : execution.Tells { execution with log := logLast } := rfl
      exact ⟨mergeable, texts, guard, Merged.of_tells toldBefore merged toldEnd⟩
    · have different : ¬ execution.Mergeable place otherPlace :=
        fun mergeable => keys mergeable.objects_eq
      unfold objectsOf at keys
      rw [if_neg keys]
      exact Moves.pure (Evolves.refl evolvesLast.sound) ⟨different, rfl⟩
  · rw [if_neg comparable]
    exact Moves.pure (Evolves.refl evolves.sound)
      ⟨fun mergeable => comparable mergeable.comparable, told⟩

end

end Execution

end Diverge
