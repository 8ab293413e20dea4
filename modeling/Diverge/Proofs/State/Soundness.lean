import Diverge.State.Life
import Diverge.Proofs.Constraints
import Diverge.Proofs.Memory.Opening

/-!
# Sound executions

In a *sound* execution everything that is held is registered in the table: the
registers and constraints of all states and the bytes of all contents.  The heap is
owned, each state has a space of its own, and constraint sets are flat.  Every
operation in the life of a state keeps an execution sound, also when it ends with a
fault halfway.
-/

namespace Diverge

open Stateful

/-! ## Heaps -/

namespace Heap

/-- The heap is owned, and all bytes are registered. -/
structure Sound (histories : List Updates) (heap : Heap) : Prop where
  supports : heap.table.Supports histories
  owned : heap.Owned
  bytes : ∀ identity, ∀ byte ∈ (heap.contentsAt identity).bytes,
    byte.Registered histories heap.table

/-- What a sound heap becomes. -/
structure Evolves (histories : List Updates) (before after : Heap) : Prop where
  sound : after.Sound histories
  grows : before.table.Grows after.table
  size_le : before.spaces.size ≤ after.spaces.size

section

variable {histories : List Updates} {heap : Heap}

theorem Evolves.refl
    (sound : heap.Sound histories) :
    heap.Evolves histories heap :=
  ⟨sound, Table.Grows.refl _, Nat.le_refl _⟩

theorem Evolves.trans
    ⦃first second third : Heap⦄
    (before : first.Evolves histories second)
    (after : second.Evolves histories third) :
    first.Evolves histories third :=
  ⟨after.sound, before.grows.trans after.grows, Nat.le_trans before.size_le after.size_le⟩

theorem Sound.withTable
    (sound : heap.Sound histories)
    {table : Table}
    (grows : heap.table.Grows table) :
    Sound histories { heap with table } where
  supports := sound.supports.grow grows
  owned := sound.owned.withTable table
  bytes := fun identity byte member => (sound.bytes identity byte member).grow grows

/-- Building on the table of a sound memory keeps it sound. -/
theorem moves_build
    {α : Type}
    {action : Build α}
    {after : α → Table → Prop}
    {safe : Prop}
    (sound : heap.Sound histories)
    (moves : Moves Table.Grows action heap.table after safe) :
    Moves (Evolves histories) (build action) heap
      (fun result later =>
        after result later.table ∧ later = { heap with table := later.table }) safe := by
  unfold Moves at moves
  unfold Moves build
  cases ran : action heap.table with
  | ok result table =>
      rw [ran] at moves
      exact ⟨⟨sound.withTable moves.1, moves.1, Nat.le_refl _⟩, moves.2, rfl⟩
  | error fault table =>
      rw [ran] at moves
      exact ⟨⟨sound.withTable moves.1, moves.1, Nat.le_refl _⟩, moves.2⟩

theorem Sound.newSpace
    (sound : heap.Sound histories) :
    heap.Evolves histories (heap.pushSpace []) where
  sound := ⟨sound.supports, sound.owned.newSpace, sound.bytes⟩
  grows := Table.Grows.refl _
  size_le := by
    rw [size_spaces_pushSpace]
    exact Nat.le_succ _

/-- So does copying a space. -/
theorem Sound.copied
    (sound : heap.Sound histories)
    (space : Nat) :
    heap.Evolves histories (heap.copied space) where
  sound := ⟨sound.supports, sound.owned.copied space, sound.bytes⟩
  grows := Table.Grows.refl _
  size_le := by
    rw [size_spaces_copied]
    exact Nat.le_succ _

theorem moves_newSpace
    (sound : heap.Sound histories) :
    Moves (Evolves histories) Heap.newSpace heap fun space later =>
      space = heap.spaces.size ∧ later.spaces.size = heap.spaces.size + 1 := by
  unfold Moves
  rw [newSpace_run]
  exact ⟨sound.newSpace, rfl, size_spaces_pushSpace _ _⟩

theorem moves_copySpace
    (sound : heap.Sound histories)
    (identity : Nat) :
    Moves (Evolves histories) (copySpace identity) heap fun space later =>
      space = heap.spaces.size ∧ later.spaces.size = heap.spaces.size + 1 := by
  unfold Moves
  rw [copySpace_run]
  exact ⟨sound.copied identity, rfl, size_spaces_copied _ _⟩

theorem Sound.unbound
    (sound : heap.Sound histories)
    (space : Nat)
    (object : MemoryObject) :
    heap.Evolves histories (heap.unbound space object) where
  sound := ⟨sound.supports, sound.owned.unbound space object, sound.bytes⟩
  grows := Table.Grows.refl _
  size_le := Nat.le_of_eq (size_spaces_setSpace _ _ _).symm

theorem Sound.pushContents
    (sound : heap.Sound histories)
    {contents : Contents}
    (free : contents.owner = 0)
    (bytes : ∀ byte ∈ contents.bytes, byte.Registered histories heap.table) :
    (heap.pushContents contents).Sound histories where
  supports := sound.supports
  owned := sound.owned.pushContents free
  bytes := by
    intro identity
    rw [Heap.contentsAt_pushContents]
    split
    · exact bytes
    · exact sound.bytes identity

/-- Contents may be changed to bytes that are registered. -/
theorem Sound.setContents
    (sound : heap.Sound histories)
    {identity : Nat}
    {changed : Contents}
    (sameOwner : changed.owner = (heap.contentsAt identity).owner)
    (bytes : ∀ byte ∈ changed.bytes, byte.Registered histories heap.table) :
    (heap.setContents identity changed).Sound histories where
  supports := sound.supports
  owned := sound.owned.setContents sameOwner
  bytes := by
    intro other
    rw [contentsAt_setContents]
    split
    · exact bytes
    · exact sound.bytes other

/-! ## Writing -/

variable {space : Nat} {object : MemoryObject} {target : Nat}

/-- A byte that is written into granted contents. -/
theorem moves_onContents
    (sound : heap.Sound histories)
    (grants : heap.Grants space object target)
    (offset : Int)
    {value : Expr}
    {safe : Prop}
    (registered : value.Registered histories heap.table)
    (fits : safe → value.width = 8 ∧
      ∃ bytes, Sequence.replace (heap.contentsAt target).bytes offset value = .ok bytes) :
    Moves (Evolves histories) (onContents target (Contents.writeByte offset value)) heap
      (fun _ later =>
        later.Grants space object target ∧
          ∃ bytes,
            Sequence.replace (heap.contentsAt target).bytes offset value = .ok bytes ∧
              value.width = 8 ∧
                later = heap.setContents target { heap.contentsAt target with bytes })
      safe := by
  have unchanged : heap.Evolves histories
      (heap.setContents target (heap.contentsAt target)) :=
    ⟨sound.setContents rfl (sound.bytes target), Table.Grows.refl _, Nat.le_refl _⟩
  unfold Moves onContents
  rw [Contents.writeByte_run]
  by_cases byte : value.width = 8
  · rw [if_pos byte]
    cases replaced : Sequence.replace (heap.contentsAt target).bytes offset value with
    | error fault =>
        refine ⟨unchanged, fun isSafe => ?_⟩
        obtain ⟨_, _, ended⟩ := fits isSafe
        rw [replaced] at ended
        cases ended
    | ok bytes =>
        have allRegistered : ∀ byte ∈ bytes, byte.Registered histories heap.table := by
          intro byte member
          rcases Sequence.mem_of_replace replaced member with old | rfl
          · exact sound.bytes target byte old
          · exact registered
        have sameOwner : ({ heap.contentsAt target with bytes } : Contents).owner =
            (heap.contentsAt target).owner := rfl
        refine ⟨?_, grants.setContents sameOwner, bytes, rfl, byte, rfl⟩
        exact ⟨sound.setContents sameOwner allRegistered, Table.Grows.refl _, Nat.le_refl _⟩
  · rw [if_neg byte]
    exact ⟨unchanged, fun isSafe => byte (fits isSafe).1⟩

theorem moves_writeByte
    (sound : heap.Sound histories)
    (grants : heap.Grants space object target)
    (offset : Int)
    {byte : Build Expr}
    (moves : Moves Table.Grows byte heap.table fun value later =>
      value.Registered histories later) :
    Moves (Evolves histories) (writeByte target offset byte) heap fun _ later =>
      later.Grants space object target := by
  refine Moves.bind Evolves.trans ((moves_build sound moves).mono ?_)
  rintro value middle evolves ⟨registered, same⟩
  have granted : middle.Grants space object target := by
    rw [same]
    exact grants.withTable _
  exact (moves_onContents evolves.sound granted offset registered False.elim).mono
    fun _ _ _ written => written.1

theorem moves_writeBytes
    (sound : heap.Sound histories)
    (grants : heap.Grants space object target)
    (offset : Int)
    {value : Expr}
    (registered : value.Registered histories heap.table)
    (place count : Nat) :
    Moves (Evolves histories) (writeBytes target offset value place count) heap
      fun _ later => later.Grants space object target := by
  induction count generalizing heap place with
  | zero => exact Moves.pure (Evolves.refl sound) grants
  | succ count inductionHypothesis =>
      have extracts := (Build.stable_extract value (8 * place) 8 false).moves_of_yields
        (Build.registered_extract registered)
      refine Moves.bind Evolves.trans ?_
      refine (moves_writeByte sound grants _ extracts).mono ?_
      intro _ middle evolves granted
      exact inductionHypothesis evolves.sound granted
        (registered.grow evolves.grows) (place + 1)

/-- Writing a registered value to granted contents keeps memory sound and the contents granted. -/
theorem moves_write
    (sound : heap.Sound histories)
    (grants : heap.Grants space object target)
    (offset : Int)
    {value : Expr}
    (registered : value.Registered histories heap.table) :
    Moves (Evolves histories) (write target offset value) heap fun _ later =>
      later.Grants space object target := by
  unfold write
  split
  · exact moves_writeByte sound grants offset
      ((Build.stable_zext value 8 false).moves_of_yields
        (Build.registered_zext registered))
  · exact moves_writeBytes sound grants offset registered 0 _

/-- Opened contents have no bytes that were not there. -/
theorem Opened.evolves
    (sound : heap.Sound histories)
    {later : Heap}
    (opened : heap.Opened space object target later) :
    heap.Evolves histories later := by
  refine ⟨⟨?_, opened.grants.owned, ?_⟩, ?_, Nat.le_of_eq opened.size_spaces_eq.symm⟩
  · rw [opened.table_eq]
    exact sound.supports
  · intro identity
    obtain ⟨other, same⟩ := opened.bytes_eq identity
    rw [same, opened.table_eq]
    exact sound.bytes other
  · rw [opened.table_eq]
    exact Table.Grows.refl _

/-- So does every update of an object that only writes to what it was granted. -/
theorem moves_update
    (sound : heap.Sound histories)
    {write : Nat → HeapM Unit}
    (writes : ∀ target middle, heap.Evolves histories middle →
      middle.Grants space object target →
        Moves (Evolves histories) (write target) middle fun _ _ => True) :
    Moves (Evolves histories) (update space object write) heap fun _ _ => True := by
  have stays := Evolves.refl sound
  unfold update
  unfold Moves
  rw [get_bind]
  change Moves (Evolves histories) _ heap fun _ _ => True
  cases found : heap.find? space object with
  | none => exact Moves.throw stays not_false
  | some contents =>
      by_cases protect : (heap.contentsAt contents).readOnly = true
      · refine Moves.bind Evolves.trans ?_
        unfold Moves
        rw [writeable_of_readOnly protect]
        exact ⟨stays, not_false⟩
      · obtain ⟨target, later, ran, opened⟩ :=
          sound.owned.writeable_run (binds_of_find? found) (by simpa using protect)
        have evolves := opened.evolves sound
        refine Moves.bind Evolves.trans ?_
        unfold Moves
        rw [ran]
        exact ⟨evolves, writes target later evolves opened.grants⟩

/-- Contents of registered bytes may be bound. -/
theorem moves_bindFresh
    (sound : heap.Sound histories)
    {contents : Contents}
    (registered : ∀ byte ∈ contents.bytes, byte.Registered histories heap.table) :
    Moves (Evolves histories) (bindFresh space object contents) heap fun _ _ => True := by
  have pushed := sound.pushContents (show contents.copy.owner = 0 from rfl) registered
  unfold Moves
  rw [bindFresh_run]
  refine ⟨⟨⟨pushed.supports, sound.owned.bindFresh space object contents, ?_⟩,
    Table.Grows.refl _, Nat.le_of_eq (size_spaces_bound _ _ _ _).symm⟩, trivial⟩
  intro identity
  rw [Contents.bytes_eq_of_copy_eq (copy_contentsAt_bound _ _ _ _ _)]
  exact pushed.bytes identity

end

end Heap

/-! ## States -/

/-- All registers and constraints are registered in the table. -/
structure ExecState.Sound
    (histories : List Updates) (table : Table) (state : ExecState) : Prop where
  registers : ∀ frame ∈ state.stack, ∀ value, some value ∈ frame.locals →
    value.Registered histories table
  constraints : state.constraints.Registered histories table
  flat : state.constraints.Flat

section

variable {histories : List Updates} {table later : Table} {state : ExecState}

theorem ExecState.Sound.grow
    (sound : state.Sound histories table)
    (grows : table.Grows later) :
    state.Sound histories later where
  registers := fun frame member value inside =>
    (sound.registers frame member value inside).grow grows
  constraints := fun entry member => (sound.constraints entry member).grow grows
  flat := sound.flat

theorem ExecState.sound_default :
    (default : ExecState).Sound histories table where
  registers := fun _ member => nomatch member
  constraints := fun _ member => nomatch member
  flat := fun _ member => nomatch member

end

namespace Execution

/-- The heap and all states are sound, and no two states share a space. -/
structure Sound (histories : List Updates) (execution : Execution) : Prop where
  heap : execution.heap.Sound histories
  states : ∀ place, (execution.stateAt place).Sound histories execution.heap.table
  space_lt : ∀ place < execution.states.size,
    (execution.stateAt place).space < execution.heap.spaces.size
  space_ne : ∀ first < execution.states.size, ∀ second < execution.states.size,
    first ≠ second → (execution.stateAt first).space ≠ (execution.stateAt second).space

/-- What a sound execution becomes. -/
structure Evolves (histories : List Updates) (before after : Execution) : Prop where
  sound : after.Sound histories
  grows : before.heap.table.Grows after.heap.table

section

variable {histories : List Updates} {execution : Execution}

theorem Evolves.refl
    (sound : execution.Sound histories) :
    execution.Evolves histories execution :=
  ⟨sound, Table.Grows.refl _⟩

theorem Evolves.trans
    ⦃first second third : Execution⦄
    (before : first.Evolves histories second)
    (after : second.Evolves histories third) :
    first.Evolves histories third :=
  ⟨after.sound, before.grows.trans after.grows⟩

theorem sound_empty : Sound [] {} where
  heap := {
    supports := Workshop.sound_empty.supports
    owned := Heap.owned_empty
    bytes := fun _ _ member => nomatch member }
  states := fun _ => ExecState.sound_default
  space_lt := fun _ below => nomatch below
  space_ne := fun _ below => nomatch below

/-! ## Parts of an execution -/

theorem Sound.withHeap
    (sound : execution.Sound histories)
    {heap : Heap}
    (evolves : execution.heap.Evolves histories heap) :
    execution.Evolves histories { execution with heap } where
  sound := {
    heap := evolves.sound
    states := fun place => (sound.states place).grow evolves.grows
    space_lt := fun place below =>
      Nat.lt_of_lt_of_le (sound.space_lt place below) evolves.size_le
    space_ne := sound.space_ne }
  grows := evolves.grows

/-- What keeps memory sound keeps the execution sound. -/
theorem moves_onHeap
    {α : Type}
    {action : HeapM α}
    {after : α → Heap → Prop}
    {safe : Prop}
    (sound : execution.Sound histories)
    (moves : Moves (Heap.Evolves histories) action execution.heap after safe) :
    Moves (Evolves histories) (onHeap action) execution
      (fun result later =>
        after result later.heap ∧ later = { execution with heap := later.heap }) safe := by
  unfold Moves at moves
  unfold Moves onHeap
  cases ran : action execution.heap with
  | ok result heap =>
      rw [ran] at moves
      exact ⟨sound.withHeap moves.1, moves.2, rfl⟩
  | error fault heap =>
      rw [ran] at moves
      exact ⟨sound.withHeap moves.1, moves.2⟩

theorem moves_build
    {α : Type}
    {action : Build α}
    {after : α → Table → Prop}
    {safe : Prop}
    (sound : execution.Sound histories)
    (moves : Moves Table.Grows action execution.heap.table after safe) :
    Moves (Evolves histories) (build action) execution
      (fun result later =>
        after result later.heap.table ∧
          later = { execution with
            heap := { execution.heap with table := later.heap.table } }) safe := by
  refine (moves_onHeap sound (Heap.moves_build sound.heap moves)).mono ?_
  rintro result later _ ⟨⟨holds, sameHeap⟩, same⟩
  refine ⟨holds, ?_⟩
  rw [← sameHeap]
  exact same

/-- The execution with another state at a place. -/
def setState (execution : Execution) (place : Nat) (state : ExecState) : Execution :=
  { execution with states := execution.states.setIfInBounds place state }

theorem stateAt_setState
    (execution : Execution)
    (place : Nat)
    (state : ExecState)
    (other : Nat) :
    (execution.setState place state).stateAt other =
      if other = place ∧ place < execution.states.size then state
      else execution.stateAt other :=
  getD_setIfInBounds _ _ _ _ _

@[simp]
theorem size_states_setState
    (execution : Execution)
    (place : Nat)
    (state : ExecState) :
    (execution.setState place state).states.size = execution.states.size :=
  Array.size_setIfInBounds

/-- A state may be changed if it stays sound and in its space. -/
theorem Sound.setState
    (sound : execution.Sound histories)
    {place : Nat}
    {state : ExecState}
    (soundState : state.Sound histories execution.heap.table)
    (sameSpace : state.space = (execution.stateAt place).space) :
    execution.Evolves histories (execution.setState place state) := by
  have space (other : Nat) : ((execution.setState place state).stateAt other).space =
      (execution.stateAt other).space := by
    rw [stateAt_setState]
    split
    · rename_i here
      rw [sameSpace, here.1]
    · rfl
  refine ⟨?_, Table.Grows.refl _⟩
  constructor
  · exact sound.heap
  · intro other
    rw [stateAt_setState]
    split
    · exact soundState
    · exact sound.states other
  · intro other below
    rw [space]
    exact sound.space_lt other (by simpa using below)
  · intro first isFirst second isSecond different
    rw [space, space]
    exact sound.space_ne first (by simpa using isFirst) second (by simpa using isSecond)
      different

theorem moves_onState
    (sound : execution.Sound histories)
    {place : Nat}
    {change : ExecState → ExecState}
    {safe : Prop}
    (soundState : (change (execution.stateAt place)).Sound histories execution.heap.table)
    (sameSpace : (change (execution.stateAt place)).space =
      (execution.stateAt place).space) :
    Moves (Evolves histories) (onState place change) execution
      (fun _ later =>
        later = execution.setState place (change (execution.stateAt place))) safe :=
  Moves.modify (sound.setState soundState sameSpace) rfl

/-- The execution with a state more. -/
def pushState (execution : Execution) (state : ExecState) : Execution :=
  { execution with states := execution.states.push state }

theorem stateAt_pushState
    (execution : Execution)
    (state : ExecState)
    (other : Nat) :
    (execution.pushState state).stateAt other =
      if other = execution.states.size then state else execution.stateAt other :=
  getD_push _ _ _ _

/-- A state with a space that no other state has. -/
theorem Sound.pushState
    (sound : execution.Sound histories)
    {state : ExecState}
    (soundState : state.Sound histories execution.heap.table)
    (present : state.space < execution.heap.spaces.size)
    (own : ∀ place < execution.states.size,
      (execution.stateAt place).space ≠ state.space) :
    execution.Evolves histories (execution.pushState state) := by
  have size : (execution.pushState state).states.size = execution.states.size + 1 :=
    Array.size_push ..
  have old {other : Nat} (below : other < (execution.pushState state).states.size)
      (notNew : ¬ other = execution.states.size) : other < execution.states.size := by
    rw [size] at below
    exact Nat.lt_of_le_of_ne (Nat.le_of_lt_succ below) notNew
  refine ⟨?_, Table.Grows.refl _⟩
  constructor
  · exact sound.heap
  · intro other
    rw [stateAt_pushState]
    split
    · exact soundState
    · exact sound.states other
  · intro other below
    rw [stateAt_pushState]
    split
    · exact present
    · exact sound.space_lt other (old below ‹_›)
  · intro first isFirst second isSecond different
    rw [stateAt_pushState, stateAt_pushState]
    split
    · split
      · rename_i firstNew secondNew
        exact (different (firstNew.trans secondNew.symm)).elim
      · exact (own second (old isSecond ‹_›)).symm
    · split
      · exact own first (old isFirst ‹_›)
      · exact sound.space_ne first (old isFirst ‹_›) second (old isSecond ‹_›) different

end

end Execution

end Diverge
