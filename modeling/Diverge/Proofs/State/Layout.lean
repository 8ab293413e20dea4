import Mathlib.Logic.Function.Iterate
import Diverge.Proofs.State.Course

/-!
# What states bind and what their frames own

Stack and memory are two structures: a frame lists the objects that live as long as it
does, and the space of a state binds objects to contents.  The *layout* of an execution is
what there is of both: which space each state has, which objects each of its frames lists,
and which objects each space binds.  Contents, registers and constraints do not belong to
it, so that most of what is done to states leaves the layout as it was.  Even a write or a
merge does: the objects it binds anew were bound before.
-/

namespace Diverge

open Stateful

/-! ## Spaces -/

namespace Heap

/-- The objects that a space binds. -/
def keys (heap : Heap) (space : Nat) : List MemoryObject :=
  (heap.spaceAt space).bindings.map Prod.fst

/-- How many spaces there are, and what each of them binds. -/
def directory (heap : Heap) : Nat × (Nat → List MemoryObject) :=
  (heap.spaces.size, heap.keys)

variable {heap : Heap}

theorem mem_keys_of_find?
    {space contents : Nat}
    {object : MemoryObject}
    (found : heap.find? space object = some contents) :
    object ∈ heap.keys space :=
  List.mem_map.mpr ⟨_, Assoc.mem_of_get? found, rfl⟩

theorem stays_build
    {α : Type}
    (action : Build α) :
    Stays directory (build action) heap := by
  unfold Stays final build
  cases action heap.table with
  | ok result table => rfl
  | error fault table => rfl

theorem stays_onContents
    {α : Type}
    (identity : Nat)
    (action : EStateM Fault Contents α) :
    Stays directory (onContents identity action) heap := by
  unfold Stays final onContents
  cases action (heap.contentsAt identity) with
  | ok result changed => rfl
  | error fault changed => rfl

theorem stays_writeByte
    (identity : Nat)
    (offset : Int)
    (byte : Build Expr) :
    Stays directory (writeByte identity offset byte) heap := by
  apply (stays_build byte).bind
  intro value middle _ _
  exact stays_onContents identity _

theorem stays_writeBytes
    (identity : Nat)
    (offset : Int)
    (value : Expr)
    (place count : Nat) :
    Stays directory (writeBytes identity offset value place count) heap := by
  induction count generalizing place heap with
  | zero => exact Stays.pure ()
  | succ count inductionHypothesis =>
      apply (stays_writeByte identity _ _).bind
      intro _ middle _ _
      exact inductionHypothesis (place + 1)

theorem stays_write
    (identity : Nat)
    (offset : Int)
    (value : Expr) :
    Stays directory (write identity offset value) heap := by
  unfold write
  split
  · exact stays_writeByte identity offset _
  · exact stays_writeBytes identity offset value 0 _

/-- Keys with another one, if that was not among them. -/
def adding (keys : List MemoryObject) (object : MemoryObject) : List MemoryObject :=
  if object ∈ keys then keys else keys ++ [object]

theorem mem_adding
    {keys : List MemoryObject}
    {object other : MemoryObject} :
    other ∈ adding keys object ↔ other ∈ keys ∨ other = object := by
  unfold adding
  split
  next isKey =>
      constructor
      · exact Or.inl
      · rintro (member | rfl)
        · exact member
        · exact isKey
  next => rw [List.mem_append, List.mem_singleton]

theorem keys_bound
    (heap : Heap)
    (space : Nat)
    (object : MemoryObject)
    (identity other : Nat) :
    (heap.bound space object identity).keys other =
      if other = space ∧ space < heap.spaces.size then adding (heap.keys space) object
      else heap.keys other := by
  unfold keys
  rw [spaceAt_bound]
  split
  · exact Assoc.keys_put _ _ _
  · rfl

/-- To bind an object that is bound replaces its contents only. -/
theorem directory_bound
    {space : Nat}
    {object : MemoryObject}
    (isBound : object ∈ heap.keys space)
    (identity : Nat) :
    (heap.bound space object identity).directory = heap.directory := by
  apply Prod.ext
  · exact size_spaces_bound heap space object identity
  · funext other
    refine (keys_bound heap space object identity other).trans ?_
    split
    next here =>
        rw [adding, if_pos isBound, here.1]
        rfl
    next => rfl

/--
Making an object writeable may change its contents' identity, but not which objects are bound.
-/
theorem stays_writeable
    {space : Nat}
    {object : MemoryObject}
    (isBound : object ∈ heap.keys space)
    (contents : Nat) :
    Stays directory (writeable space object contents) heap := by
  cases protect : (heap.contentsAt contents).readOnly with
  | true =>
      unfold Stays final
      rw [writeable_of_readOnly protect]
  | false =>
      by_cases owns : (heap.contentsAt contents).owner = (heap.spaceAt space).key
      · unfold Stays final writeable
        simp only [get_bind, protect, Bool.false_eq_true, if_false, owns, if_true]
        rfl
      · unfold Stays final
        rw [writeable_of_shared protect owns]
        exact directory_bound (show object ∈ (heap.pushContents _).keys space from isBound) _

/-- Writing to an object leaves the directory alone. -/
theorem stays_update
    {write : Nat → HeapM Unit}
    (stays : ∀ target heap, Stays directory (write target) heap)
    (space : Nat)
    (object : MemoryObject) :
    Stays directory (update space object write) heap := by
  apply Stays.get_bind
  split
  next => exact Stays.throw _
  next contents found =>
      apply (stays_writeable (mem_keys_of_find? found) contents).bind
      intro target middle _ _
      exact stays target middle

end Heap

namespace Execution

variable {heap : Heap}

theorem stays_mergeByte
    (value : Expr → Expr → Build Expr)
    (target source offset : Nat) :
    Stays Heap.directory (mergeByte value target source offset) heap := by
  apply Stays.get_bind
  apply (Stays.ofExcept _).bind
  intro first middle _ _
  apply Stays.get_bind
  apply (Stays.ofExcept _).bind
  intro second later _ _
  apply (Heap.stays_build _).bind
  intro merged last _ _
  exact Heap.stays_onContents target _

theorem stays_mergeBytes
    (value : Expr → Expr → Build Expr)
    (target source offset count : Nat) :
    Stays Heap.directory (mergeBytes value target source offset count) heap := by
  induction count generalizing offset heap with
  | zero => exact Stays.pure ()
  | succ count inductionHypothesis =>
      apply (stays_mergeByte value target source offset).bind
      intro _ middle _ _
      exact inductionHypothesis (offset + 1)

/-- Merging the bytes of an object leaves the directory alone. -/
theorem stays_mergeObject
    (value : Expr → Expr → Build Expr)
    (space other : Nat)
    (object : MemoryObject) :
    Stays Heap.directory (mergeObject value space other object) heap := by
  apply Stays.get_bind
  split
  next contents source found _ =>
      apply (Heap.stays_writeable (Heap.mem_keys_of_find? found) contents).bind
      intro target middle _ _
      exact stays_mergeBytes value target source 0 _
  next => exact Stays.pure ()

end Execution

/-! ## Layouts -/

/-- Which objects the frames of a state list, the oldest frame first. -/
def ExecState.layers (state : ExecState) : List (List MemoryObject) :=
  state.stack.map Frame.allocas

/-- What there is of states, frames and bindings. -/
structure Layout where
  /-- How many states there are. -/
  states : Nat
  /-- The space of a state. -/
  space : Nat → Nat
  /-- The objects that the frames of a state list. -/
  layers : Nat → List (List MemoryObject)
  /-- How many spaces there are. -/
  spaces : Nat
  /-- The objects that a space binds. -/
  keys : Nat → List MemoryObject

namespace Execution

/-- The layout of an execution. -/
def layout (execution : Execution) : Layout where
  states := execution.states.size
  space := fun place => (execution.stateAt place).space
  layers := fun place => (execution.stateAt place).layers
  spaces := execution.heap.spaces.size
  keys := execution.heap.keys

variable {execution : Execution}

/-- A changed state with the same space and the same layers leaves the layout alone. -/
theorem layout_setState
    {place : Nat}
    {state : ExecState}
    (sameSpace : state.space = (execution.stateAt place).space)
    (sameLayers : state.layers = (execution.stateAt place).layers) :
    (execution.setState place state).layout = execution.layout := by
  have field {ι : Type} {field : ExecState → ι}
      (same : field state = field (execution.stateAt place)) (other : Nat) :
      field ((execution.setState place state).stateAt other) = field (execution.stateAt other) :=
    (unmoved_setState same).field_eq other
  unfold layout
  congr 1
  · exact size_states_setState execution place state
  · exact funext (field sameSpace)
  · exact funext (field sameLayers)

theorem stays_onHeap
    {α : Type}
    {action : HeapM α}
    (stays : Stays Heap.directory action execution.heap) :
    Stays layout (onHeap action) execution := by
  have withHeap {heap : Heap} (same : heap.directory = execution.heap.directory) :
      ({ execution with heap } : Execution).layout = execution.layout := by
    unfold layout
    congr 1
    · exact congrArg Prod.fst same
    · exact congrArg Prod.snd same
  unfold Stays final at stays ⊢
  unfold onHeap
  cases ran : action execution.heap with
  | ok result heap =>
      rw [ran] at stays
      exact withHeap stays
  | error fault heap =>
      rw [ran] at stays
      exact withHeap stays

theorem stays_build
    {α : Type}
    (action : Build α) :
    Stays layout (build action) execution :=
  stays_onHeap (Heap.stays_build action)

theorem stays_onState
    {place : Nat}
    {change : ExecState → ExecState}
    (sameSpace : (change (execution.stateAt place)).space = (execution.stateAt place).space)
    (sameLayers : (change (execution.stateAt place)).layers = (execution.stateAt place).layers) :
    Stays layout (onState place change) execution :=
  Stays.modify (layout_setState sameSpace sameLayers)

theorem stays_tell
    (line : String) :
    Stays layout (tell line) execution :=
  Stays.modify rfl

theorem stays_onWaiting
    (meeting : Nat)
    (change : List Nat → List Nat) :
    Stays layout (onWaiting meeting change) execution :=
  Stays.modify rfl

theorem stays_addConstraint
    (place : Nat)
    (constraint : Expr) :
    Stays layout (addConstraint place constraint) execution := by
  apply Stays.get_bind
  split
  · exact stays_onState rfl rfl
  · apply (stays_onState rfl rfl).bind
    intro _ middle _ _
    exact Stays.throw _

theorem stays_closeMerge
    (place meeting : Nat) :
    Stays layout (closeMerge place meeting) execution := by
  apply Stays.get_bind
  split
  · apply (stays_onState rfl rfl).bind
    intro _ middle _ _
    exact stays_onWaiting meeting _
  · exact Stays.pure ()

/-! ## Registers and frames -/

/-- A frame that is changed may change its layer. -/
theorem layers_set?
    {stack : List Frame}
    {index : Int}
    {position : Nat}
    (named : Sequence.position? stack.length index = some position)
    (changed : Frame) :
    ((Sequence.set? stack index changed).getD stack).map Frame.allocas =
      (stack.map Frame.allocas).set position changed.allocas := by
  unfold Sequence.set?
  rw [named]
  exact List.map_set

/-- Setting a register leaves the layout alone. -/
theorem stays_setLocal
    (place : Nat)
    (index register : Int)
    (value : Option Expr) :
    Stays layout (setLocal place index register value) execution := by
  apply Stays.get_bind
  apply (Stays.ofExcept _).bind
  intro frame middle found _
  obtain ⟨fetched, rfl⟩ := ofExcept_eq_ok.1 found
  apply (Stays.ofExcept _).bind
  intro changed later replaced _
  obtain ⟨outcome, rfl⟩ := ofExcept_eq_ok.1 replaced
  obtain ⟨locals, _, ended⟩ := except_bind_eq_ok.1 outcome
  cases ended
  obtain ⟨position, named, isThere⟩ :=
    Option.bind_eq_some_iff.1 (Sequence.get?_of_fetch fetched)
  apply stays_onState rfl
  -- The layer that is written back is the one that was there.
  refine (layers_set? named _).trans ?_
  have layer : (execution.stateAt place).layers[position]? = some frame.allocas := by
    rw [ExecState.layers, List.getElem?_map, isThere]
    rfl
  obtain ⟨inside, same⟩ := List.getElem?_eq_some_iff.1 layer
  show (execution.stateAt place).layers.set position frame.allocas = _
  rw [← same, List.set_getElem_self]

/-! ## Merges -/

/-- Merged frames list the objects that the frames of the receiver list. -/
theorem layers_mergeFrames
    (value : Expr → Expr → Build Expr)
    (firsts seconds : List Frame)
    (table : Table) :
    Yields (mergeFrames value firsts seconds) table fun merged _ =>
      merged.map Frame.allocas = firsts.map Frame.allocas := by
  induction firsts generalizing seconds table with
  | nil =>
      cases seconds with
      | nil => exact Yields.pure rfl
      | cons second seconds => exact Yields.pure rfl
  | cons first firsts inductionHypothesis =>
      cases seconds with
      | nil => exact Yields.pure rfl
      | cons second seconds =>
          apply Yields.bind
          intro locals middle _
          apply Yields.bind
          intro rest later ran
          apply Yields.pure
          exact congrArg (first.allocas :: ·) (inductionHypothesis seconds middle ran)

theorem stays_trace
    (options : Options)
    (line : String) :
    Stays layout (trace options line) execution := by
  unfold trace
  split
  · exact stays_tell line
  · exact Stays.pure ()

theorem stays_traceText
    (options : Options)
    (label : String)
    (written : Except Fault String) :
    Stays layout (traceText options label written) execution := by
  cases written with
  | ok text => exact stays_trace options _
  | error fault => exact Stays.pure ()

theorem stays_traceList
    (options : Options)
    (label : String)
    (expressions : List Expr) :
    Stays layout (traceList options label expressions) execution := by
  apply (Stays.ofExcept _).bind
  intro text middle _ _
  exact stays_trace options _

theorem stays_traceOverlap
    (options : Options)
    (overlap : Overlap) :
    Stays layout (traceOverlap options overlap) execution := by
  apply (stays_traceList options _ _).bind
  intro _ first _ _
  apply (stays_traceList options _ _).bind
  intro _ second _ _
  exact stays_traceList options _ _

theorem stays_compareMemory
    (options : Options)
    (left right : Space) :
    Stays layout (compareMemory options left right) execution := by
  apply (stays_trace options _).bind
  intro _ first _ _
  apply (stays_traceText options _ _).bind
  intro _ second _ _
  apply (stays_traceText options _ _).bind
  intro _ third _ _
  apply (Stays.forM _ fun line _ _ _ => stays_trace options line).bind
  intro _ told _ _
  exact Stays.pure _

theorem stays_traceMerged
    (place : Nat) :
    Stays layout (traceMerged place) execution := by
  apply Stays.get_bind
  exact stays_traceText _ _ _

/-- Taking another state in leaves the layout alone. -/
theorem stays_absorb
    {place : Nat}
    {receiver other : ExecState}
    (isReceiver : receiver.layers = (execution.stateAt place).layers)
    (overlap : Overlap)
    (mutated : List MemoryObject) :
    Stays layout (absorb place receiver other overlap mutated) execution := by
  apply (stays_build _).bind
  intro inReceiver first _ sameFirst
  apply (stays_build _).bind
  intro inOther second _ sameSecond
  apply (stays_build _).bind
  intro stack third ran sameThird
  have merged := yields_build
    (fun table => layers_mergeFrames _ receiver.stack other.stack table) ran
  have sameLayers : (third.stateAt place).layers = (execution.stateAt place).layers :=
    congrFun (congrArg Layout.layers (sameThird.trans (sameSecond.trans sameFirst))) place
  refine (stays_onState ?_ ?_).bind ?_
  · rfl
  · exact merged.trans (isReceiver.trans sameLayers.symm)
  intro _ fourth _ _
  apply (stays_onHeap (Stays.forM _ fun object _ _ _ => stays_mergeObject _ _ _ object)).bind
  intro _ fifth _ _
  apply (stays_onState rfl rfl).bind
  intro _ sixth _ _
  apply (Stays.forM _ fun constraint _ _ _ => stays_addConstraint place constraint).bind
  intro _ seventh _ _
  apply (stays_build _).bind
  intro either eighth _ _
  exact stays_addConstraint place either

/-- A merge leaves the layout alone, however it ends. -/
theorem stays_merge
    (place otherPlace : Nat) :
    Stays layout (merge place otherPlace) execution := by
  apply Stays.get_bind
  apply Stays.get_bind
  apply (stays_trace _ _).bind
  intro _ told _ sameTold
  split
  · apply (stays_traceOverlap _ _).bind
    intro _ compared _ sameCompared
    apply Stays.get_bind
    apply (stays_compareMemory _ _ _).bind
    intro outcome later _ sameLater
    cases outcome with
    | none => exact Stays.pure false
    | some mutated =>
        have same := sameLater.trans (sameCompared.trans sameTold)
        apply (stays_absorb (congrFun (congrArg Layout.layers same.symm) place) _ mutated).bind
        intro _ merged _ _
        apply (stays_traceMerged place).bind
        intro _ last _ _
        exact Stays.pure true
  · exact Stays.pure false

end Execution

/-! ## Changes of a layout -/

namespace Layout

/-- The objects that a state binds. -/
def bound (layout : Layout) (place : Nat) : List MemoryObject :=
  layout.keys (layout.space place)

/-- One state has other layers and binds other objects. -/
def revise (layout : Layout) (place : Nat) (layers : List (List MemoryObject))
    (keys : List MemoryObject) : Layout :=
  { layout with
    layers := fun other => if other = place then layers else layout.layers other
    keys := fun space => if space = layout.space place then keys else layout.keys space }

/-- There is a state more, in a space of its own. -/
def grow (layout : Layout) (layers : List (List MemoryObject)) (keys : List MemoryObject) :
    Layout where
  states := layout.states + 1
  space := fun place => if place = layout.states then layout.spaces else layout.space place
  layers := fun place => if place = layout.states then layers else layout.layers place
  spaces := layout.spaces + 1
  keys := fun space => if space = layout.spaces then keys else layout.keys space

theorem revise_grow
    (layout : Layout)
    (layers : List (List MemoryObject))
    (keys : List MemoryObject)
    (otherLayers : List (List MemoryObject))
    (otherKeys : List MemoryObject) :
    (layout.grow layers keys).revise layout.states otherLayers otherKeys =
      layout.grow otherLayers otherKeys := by
  unfold revise grow
  congr 1
  · funext place
    by_cases isNew : place = layout.states
    · simp only [isNew, if_true]
    · simp only [isNew, if_false]
  · funext space
    by_cases isNew : space = layout.spaces
    · simp only [isNew, if_true]
    · simp only [isNew, if_false, if_true]

@[simp]
theorem layers_grow_self
    (layout : Layout)
    (layers : List (List MemoryObject))
    (keys : List MemoryObject) :
    (layout.grow layers keys).layers layout.states = layers :=
  if_pos rfl

@[simp]
theorem bound_grow_self
    (layout : Layout)
    (layers : List (List MemoryObject))
    (keys : List MemoryObject) :
    (layout.grow layers keys).bound layout.states = keys := by
  simp [bound, grow]

/-- The last layer of a state is gone, and what it listed is not bound any more. -/
def pop (place : Nat) (layout : Layout) : Layout :=
  match (layout.layers place).getLast? with
  | none => layout
  | some top =>
      layout.revise place (layout.layers place).dropLast
        ((layout.bound place).filter (· ∉ top))

section

variable (place : Nat) (layout : Layout)

@[simp]
theorem states_pop :
    (pop place layout).states = layout.states := by
  unfold pop
  split
  · rfl
  · rfl

@[simp]
theorem space_pop :
    (pop place layout).space = layout.space := by
  unfold pop
  split
  · rfl
  · rfl

@[simp]
theorem spaces_pop :
    (pop place layout).spaces = layout.spaces := by
  unfold pop
  split
  · rfl
  · rfl

theorem layers_pop
    (other : Nat) :
    (pop place layout).layers other =
      if other = place then (layout.layers place).dropLast else layout.layers other := by
  unfold pop
  split
  next empty =>
      split
      next here => rw [here, List.getLast?_eq_none_iff.mp empty]; rfl
      next => rfl
  next => rfl

theorem states_iterate_pop
    (count : Nat) :
    ((pop place)^[count] layout).states = layout.states := by
  induction count with
  | zero => rfl
  | succ count inductionHypothesis =>
      rw [Function.iterate_succ_apply', states_pop, inductionHypothesis]

/-- So many frames fewer are left. -/
theorem length_layers_iterate_pop
    (count : Nat) :
    (((pop place)^[count] layout).layers place).length =
      (layout.layers place).length - count := by
  induction count with
  | zero => rfl
  | succ count inductionHypothesis =>
      rw [Function.iterate_succ_apply', layers_pop, if_pos rfl, List.length_dropLast,
        inductionHypothesis, Nat.sub_sub]

theorem layers_iterate_pop_of_ne
    {other : Nat}
    (different : other ≠ place)
    (count : Nat) :
    ((pop place)^[count] layout).layers other = layout.layers other := by
  induction count with
  | zero => rfl
  | succ count inductionHypothesis =>
      rw [Function.iterate_succ_apply', layers_pop, if_neg different, inductionHypothesis]

end

/-- The last layer of a state lists an object more, which is bound. -/
def allocate (layout : Layout) (place : Nat) (object : MemoryObject) : Layout :=
  layout.revise place
    ((layout.layers place).dropLast ++ [((layout.layers place).getLast?.getD []) ++ [object]])
    (Heap.adding (layout.bound place) object)

end Layout

end Diverge
