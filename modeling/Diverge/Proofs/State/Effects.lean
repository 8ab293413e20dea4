import Diverge.Proofs.State.Layout
import Diverge.Proofs.State.Meetings

/-!
# What deeds do to a layout

A deed is anything that happens to states, or an allocation: an object is bound and given to
the frame entered last.  There are a few ways only in which a deed changes the layout of an
execution.  `Effect` names them, `Effect.Leads` says where each of them leads, and
`Execution.leads_perform` that a deed leads where its effect does.
-/

namespace Diverge

open Stateful

/-! ## What deeds change -/

/-- What may be done to the layout of an execution. -/
inductive Effect where
  | none
  | create
  | fork (place : Nat)
  | enter (place : Nat)
  | leave (place : Nat)
  | allocate (place : Nat) (object : MemoryObject)
  | bind (place : Nat) (object : MemoryObject)
  | unbind (place : Nat) (object : MemoryObject)
  | terminate (place : Nat)

/-- The states that an effect is about. -/
def Effect.places : Effect → List Nat
  | .none | .create => []
  | .fork place | .enter place | .leave place | .allocate place _ | .bind place _
  | .unbind place _ | .terminate place => [place]

/-- Where an effect may lead from a layout. -/
def Effect.Leads (before after : Layout) : Effect → Prop
  | .none => after = before
  | .create => after = before ∨ after = before.grow [] [] ∨ after = before.grow [[]] []
  | .fork place => after = before.grow (before.layers place) (before.bound place)
  | .enter place =>
      after = before ∨
        after = before.revise place (before.layers place ++ [[]]) (before.bound place)
  | .leave place => after = before.pop place
  | .allocate place object => after = before.allocate place object
  | .bind place object =>
      after = before.revise place (before.layers place)
        (Heap.adding (before.bound place) object)
  | .unbind _ _ => True
  | .terminate place => after = (Layout.pop place)^[(before.layers place).length] before

/-- What an action does to the layout. -/
def Action.effect : Action → Effect
  | .create _ _ _ => .create
  | .fork place => .fork place
  | .enter place _ _ => .enter place
  | .leave place => .leave place
  | .bind place object _ => .bind place object
  | .unbind place object => .unbind place object
  | .jump _ _ | .assign _ _ _ _ | .constrain _ _ | .mark _ _ _ | .write _ _ _ _
  | .writeByte _ _ _ _ | .merge _ _ => .none

/-- What an event does to the layout. -/
def Event.effect : Event → Effect
  | .act action => action.effect
  | .terminate place => .terminate place
  | .renumber _ _ | .meet | .openMerge _ _ | .closeMerge _ _ | .release _ => .none

/-- Anything that happens, or a frame that allocates an object. -/
inductive Deed where
  | happen (event : Event)
  /-- Bind an object and give it to the frame entered last. -/
  | allocate (place : Nat) (object : MemoryObject) (contents : Contents)

namespace Deed

/-- What is done. -/
def run : Deed → ExecutionM Unit
  | .happen event => event.run
  | .allocate place object contents => do
      Action.onSpaceOf place fun space => Heap.bindFresh space object contents
      Execution.addAlloca place (-1) object

/-- The states to which it is done. -/
def places : Deed → List Nat
  | .happen event => event.places
  | .allocate place _ _ => [place]

/-- What it does to the layout. -/
def effect : Deed → Effect
  | .happen event => event.effect
  | .allocate place object _ => .allocate place object

theorem mem_places_of_effect
    {deed : Deed}
    {place : Nat}
    (member : place ∈ deed.effect.places) :
    place ∈ deed.places := by
  cases deed with
  | allocate other object contents => exact member
  | happen event =>
      cases event with
      | act action =>
          cases action with
          | fork _ | enter _ _ _ | leave _ | bind _ _ _ | unbind _ _ => exact member
          | create _ _ _ | jump _ _ | assign _ _ _ _ | constrain _ _ | mark _ _ _
          | write _ _ _ _ | writeByte _ _ _ _ | merge _ _ =>
              exact absurd member List.not_mem_nil
      | terminate other => exact member
      | renumber _ _ | meet | openMerge _ _ | closeMerge _ _ | release _ =>
          exact absurd member List.not_mem_nil

/-- What is bound for a state otherwise than by a frame is bound by this action. -/
theorem effect_eq_bind_iff
    {deed : Deed}
    {place : Nat}
    {object : MemoryObject} :
    deed.effect = .bind place object ↔
      ∃ contents, deed = .happen (.act (.bind place object contents)) := by
  constructor
  · intro binds
    cases deed with
    | allocate other object contents => cases binds
    | happen event =>
        cases event with
        | act action =>
            cases action with
            | bind other object contents =>
                cases binds
                exact ⟨contents, rfl⟩
            | _ => cases binds
        | _ => cases binds
  · rintro ⟨contents, rfl⟩
    rfl

end Deed

/-! ## Where deeds lead -/

namespace Heap

/-- The heap after some objects were unbound. -/
def unboundAll (heap : Heap) (space : Nat) (objects : List MemoryObject) : Heap :=
  objects.foldl (fun heap object => heap.unbound space object) heap

/-- Unbinding objects one after the other never fails. -/
theorem forM_unbind_run
    (heap : Heap)
    (space : Nat)
    (objects : List MemoryObject) :
    objects.forM (unbind space) heap = .ok () (heap.unboundAll space objects) := by
  induction objects generalizing heap with
  | nil => rfl
  | cons object rest inductionHypothesis =>
      exact (bind_of_ok (unbind_run heap space object)).trans (inductionHypothesis _)

theorem keys_unbound
    (heap : Heap)
    (space : Nat)
    (object : MemoryObject)
    (other : Nat) :
    (heap.unbound space object).keys other =
      if other = space ∧ space < heap.spaces.size then (heap.keys space).filter (· ≠ object)
      else heap.keys other := by
  unfold keys
  rw [spaceAt_unbound]
  split
  · exact Assoc.keys_erase _ _
  · rfl

theorem size_spaces_unboundAll
    (heap : Heap)
    (space : Nat)
    (objects : List MemoryObject) :
    (heap.unboundAll space objects).spaces.size = heap.spaces.size := by
  induction objects generalizing heap with
  | nil => rfl
  | cons object rest inductionHypothesis =>
      exact (inductionHypothesis _).trans (size_spaces_setSpace _ _ _)

/-- What is left in the space are the objects that were not unbound. -/
theorem keys_unboundAll
    {heap : Heap}
    {space : Nat}
    (inside : space < heap.spaces.size)
    (objects : List MemoryObject)
    (other : Nat) :
    (heap.unboundAll space objects).keys other =
      if other = space then (heap.keys space).filter (· ∉ objects) else heap.keys other := by
  induction objects generalizing heap with
  | nil =>
      split
      next here =>
          subst here
          simp [unboundAll]
      next => rfl
  | cons object rest inductionHypothesis =>
      have stillInside : space < (heap.unbound space object).spaces.size :=
        Nat.lt_of_lt_of_eq inside (size_spaces_setSpace _ _ _).symm
      refine (inductionHypothesis stillInside).trans ?_
      split
      next =>
          rw [keys_unbound, if_pos ⟨rfl, inside⟩, List.filter_filter]
          apply List.filter_congr
          intro key _
          simp [Bool.and_comm]
      next elsewhere => rw [keys_unbound, if_neg fun both => elsewhere both.1]

/-- Other spaces and all contents are as they were. -/
theorem unboundAll_elsewhere
    (heap : Heap)
    {space other : Nat}
    (different : other ≠ space)
    (objects : List MemoryObject) :
    (heap.unboundAll space objects).spaceAt other = heap.spaceAt other ∧
      (heap.unboundAll space objects).contents = heap.contents := by
  induction objects generalizing heap with
  | nil => exact ⟨rfl, rfl⟩
  | cons object rest inductionHypothesis =>
      obtain ⟨sameSpace, sameContents⟩ := inductionHypothesis (heap.unbound space object)
      refine ⟨sameSpace.trans ?_, sameContents⟩
      rw [spaceAt_unbound, if_neg fun here => different here.1]

/-- The heap after an object was bound to contents that were taken up for it. -/
def boundFresh (heap : Heap) (space : Nat) (object : MemoryObject) (contents : Contents) :
    Heap :=
  (heap.pushContents contents.copy).bound space object heap.contents.size

/-- Binding fresh contents adds the object to those of the space. -/
theorem keys_boundFresh
    {heap : Heap}
    {space : Nat}
    (inside : space < heap.spaces.size)
    (object : MemoryObject)
    (contents : Contents)
    (other : Nat) :
    (heap.boundFresh space object contents).keys other =
      if other = space then adding (heap.keys space) object else heap.keys other := by
  refine (keys_bound _ space object _ other).trans ?_
  split
  next here => rw [if_pos here.1]; rfl
  next elsewhere => rw [if_neg fun here => elsewhere ⟨here, inside⟩]; rfl

end Heap

namespace Execution

variable {execution : Execution} {place : Nat}

/-- One state changes its stack, and its space its bindings. -/
theorem layout_revise
    (present : place < execution.states.size)
    (state : ExecState)
    (sameSpace : state.space = (execution.stateAt place).space)
    {heap : Heap}
    {keys : List MemoryObject}
    (sameSize : heap.spaces.size = execution.heap.spaces.size)
    (keys_eq : ∀ space, heap.keys space =
      if space = (execution.stateAt place).space then keys else execution.heap.keys space) :
    ({ execution.setState place state with heap } : Execution).layout =
      execution.layout.revise place state.layers keys := by
  unfold layout Layout.revise
  congr 1
  · exact size_states_setState execution place state
  · funext other
    show ((execution.setState place state).stateAt other).space = _
    exact (unmoved_setState sameSpace).field_eq other
  · funext other
    show ((execution.setState place state).stateAt other).layers = _
    rw [stateAt_setState]
    split
    next here => rw [if_pos here.1]
    next elsewhere => rw [if_neg fun here => elsewhere ⟨here, present⟩]
  · exact funext keys_eq

/-- The bindings stay as they are. -/
theorem keys_unrevised
    (execution : Execution)
    (place space : Nat) :
    execution.heap.keys space =
      if space = (execution.stateAt place).space then execution.layout.bound place
      else execution.heap.keys space := by
  split
  next here =>
      rw [here]
      rfl
  next => rfl

theorem onHeap_of_ok
    {α : Type}
    {action : HeapM α}
    {result : α}
    {heap : Heap}
    (ran : action execution.heap = .ok result heap) :
    onHeap action execution = .ok result { execution with heap } := by
  unfold onHeap
  rw [ran]

theorem final_bind_of_ok
    {α β : Type}
    {action : ExecutionM α}
    {next : α → ExecutionM β}
    {middle : Execution}
    {result : α}
    (ran : action execution = .ok result middle) :
    final (action >>= next) execution = final (next result) middle := by
  unfold final
  rw [bind_of_ok ran]

theorem final_bind_pure
    {α β : Type}
    (action : ExecutionM α)
    (result : β) :
    final (action >>= fun _ => pure result) execution = final action execution := by
  unfold final
  cases ran : action execution with
  | ok value later => rw [bind_of_ok ran]; rfl
  | error fault later => rw [bind_of_error ran]

theorem leads_pushFrame
    (present : place < execution.states.size)
    (caller : Option Instruction)
    (function : Function) :
    (Effect.enter place).Leads execution.layout
      (final (pushFrame place caller function) execution).layout := by
  unfold pushFrame
  cases entered : Frame.enter caller function with
  | error fault => exact Or.inl rfl
  | ok frame =>
      have empty : frame.allocas = [] := by
        obtain ⟨count, _, ended⟩ := except_bind_eq_ok.1 entered
        cases ended
        rfl
      have layers : ((execution.stateAt place).stack ++ [frame]).map Frame.allocas =
          execution.layout.layers place ++ [[]] := by
        rw [List.map_append, List.map_singleton, empty]
        rfl
      right
      rw [← layers]
      exact layout_revise present
        { execution.stateAt place with stack := (execution.stateAt place).stack ++ [frame] }
        rfl rfl (keys_unrevised execution place)

/-- There is no frame to leave on an empty stack, and nothing changes. -/
theorem popFrame_of_empty
    (empty : (execution.stateAt place).stack.getLast? = none) :
    popFrame place execution = .error .emptyStack execution := by
  unfold popFrame
  rw [get_bind]
  simp only [empty]
  rfl

theorem popFrame_run
    {frame : Frame}
    (found : (execution.stateAt place).stack.getLast? = some frame) :
    popFrame place execution =
      .ok () { execution.setState place
          { execution.stateAt place with stack := (execution.stateAt place).stack.dropLast } with
        heap := execution.heap.unboundAll (execution.stateAt place).space frame.allocas } := by
  unfold popFrame
  rw [get_bind]
  simp only [found]
  refine (bind_of_ok rfl).trans ?_
  exact onHeap_of_ok (Heap.forM_unbind_run execution.heap _ frame.allocas)

/-- Leaving a frame takes its layer, and the objects of that layer, from the layout. -/
theorem layout_popFrame
    (present : place < execution.states.size)
    (inside : (execution.stateAt place).space < execution.heap.spaces.size) :
    (final (popFrame place) execution).layout = execution.layout.pop place := by
  have last : (execution.layout.layers place).getLast? =
      (execution.stateAt place).stack.getLast?.map Frame.allocas :=
    List.getLast?_map
  unfold final Layout.pop
  cases found : (execution.stateAt place).stack.getLast? with
  | none =>
      rw [popFrame_of_empty found, last, found]
      rfl
  | some frame =>
      have layers : (execution.layout.layers place).dropLast =
          (execution.stateAt place).stack.dropLast.map Frame.allocas :=
        List.map_dropLast.symm
      rw [popFrame_run found, last, found, layers]
      exact layout_revise present
        { execution.stateAt place with stack := (execution.stateAt place).stack.dropLast } rfl
        (Heap.size_spaces_unboundAll _ _ _) (Heap.keys_unboundAll inside frame.allocas)

/-- The space of one state changes its bindings. -/
theorem layout_rebind
    {heap : Heap}
    {keys : List MemoryObject}
    (sameSize : heap.spaces.size = execution.heap.spaces.size)
    (keys_eq : ∀ space, heap.keys space =
      if space = (execution.stateAt place).space then keys else execution.heap.keys space) :
    ({ execution with heap } : Execution).layout =
      execution.layout.revise place (execution.layout.layers place) keys := by
  unfold layout Layout.revise
  congr 1
  · funext other
    split
    next here => rw [here]; rfl
    next => rfl
  · exact funext keys_eq

theorem onSpaceOf_bindFresh_run
    (execution : Execution)
    (place : Nat)
    (object : MemoryObject)
    (contents : Contents) :
    Action.onSpaceOf place (fun space => Heap.bindFresh space object contents) execution =
      .ok () { execution with
        heap := execution.heap.boundFresh (execution.stateAt place).space object contents } := by
  unfold Action.onSpaceOf
  rw [get_bind]
  exact onHeap_of_ok (Heap.bindFresh_run execution.heap _ object contents)

/-- Binding adds an object to a state without listing it in a frame. -/
theorem layout_bind
    (inside : (execution.stateAt place).space < execution.heap.spaces.size)
    (object : MemoryObject)
    (contents : Contents) :
    (final (Action.onSpaceOf place fun space => Heap.bindFresh space object contents)
      execution).layout =
      execution.layout.revise place (execution.layout.layers place)
        (Heap.adding (execution.layout.bound place) object) := by
  unfold final
  rw [onSpaceOf_bindFresh_run]
  exact layout_rebind (Heap.size_spaces_bound _ _ _ _) (Heap.keys_boundFresh inside object contents)

/-- A state and a space more. -/
theorem layout_grow
    {state : ExecState}
    {heap : Heap}
    {keys : List MemoryObject}
    (space : state.space = execution.heap.spaces.size)
    (size : heap.spaces.size = execution.heap.spaces.size + 1)
    (keys_eq : ∀ space, heap.keys space =
      if space = execution.heap.spaces.size then keys else execution.heap.keys space) :
    ({ execution.pushState state with heap } : Execution).layout =
      execution.layout.grow state.layers keys := by
  have field {ι : Type} (field : ExecState → ι) (place : Nat) :
      field ((execution.pushState state).stateAt place) =
        if place = execution.states.size then field state
        else field (execution.stateAt place) := by
    rw [stateAt_pushState]
    split
    next => rfl
    next => rfl
  unfold layout Layout.grow
  congr 1
  · exact Array.size_push ..
  · funext place
    rw [← space]
    exact field ExecState.space place
  · funext place
    exact field ExecState.layers place
  · exact funext keys_eq

theorem leads_newState
    (function : Function)
    (patch : Option Int)
    (options : Options) :
    Effect.create.Leads execution.layout
      (final (newState function patch options) execution).layout := by
  cases isFirst : function.instructions.head? with
  | none =>
      left
      unfold newState
      rw [isFirst]
      rfl
  | some first =>
      let state : ExecState :=
        { options, patch, pc := some first, prevPc := some first
          stack := [], depth := 0, space := execution.heap.spaces.size, constraints := {}
          covered := [], symbolics := [], preferences := [], arrayNames := [], openMerges := []
          unwinding := none, coveredNew := false, info := [] }
      let created : Execution :=
        { execution.pushState state with heap := execution.heap.pushSpace [] }
      have grown : created.layout = execution.layout.grow [] [] := by
        apply layout_grow rfl (Heap.size_spaces_pushSpace _ _)
        intro space
        unfold Heap.keys
        rw [Heap.spaceAt_pushSpace]
        split
        next => rfl
        next => rfl
      have present : execution.states.size < created.states.size :=
        Nat.lt_of_lt_of_eq (Nat.lt_succ_self _) (Array.size_push ..).symm
      have ended : final (newState function patch options) execution =
          final (pushFrame execution.states.size none function) created := by
        refine Eq.trans ?_ (final_bind_pure _ execution.states.size)
        unfold newState
        rw [isFirst]
        rfl
      have entered := leads_pushFrame present none function
      rw [← ended, grown] at entered
      right
      rcases entered with same | deeper
      · exact Or.inl same
      · right
        refine deeper.trans ?_
        rw [show execution.states.size = execution.layout.states from rfl,
          Layout.layers_grow_self, Layout.bound_grow_self, Layout.revise_grow]
        rfl

/-- A fork has the layers and the objects of its parent. -/
theorem layout_fork
    (execution : Execution)
    (place : Nat) :
    (final (fork place) execution).layout =
      execution.layout.grow (execution.layout.layers place) (execution.layout.bound place) := by
  let deeper := execution.setState place
    { execution.stateAt place with depth := (execution.stateAt place).depth + 1 }
  have same : deeper.layout = execution.layout := layout_setState rfl rfl
  let parent := deeper.stateAt place
  let child : ExecState :=
    { parent with
      space := deeper.heap.spaces.size, covered := [], coveredNew := false
      unwinding := parent.unwinding.map Unwinding.inherit }
  let pushed : Execution :=
    { deeper.pushState child with heap := deeper.heap.copied parent.space }
  have grown : pushed.layout =
      deeper.layout.grow (deeper.layout.layers place) (deeper.layout.bound place) := by
    apply layout_grow rfl (Heap.size_spaces_copied _ _)
    intro space
    unfold Heap.keys
    rw [Heap.bindings_copied]
    split
    next => rfl
    next => rfl
  let told : ExecutionM Nat := do
    parent.openMerges.forM fun meeting => addWaiting meeting deeper.states.size
    tell ("forked state " ++ toString (place + 1) ++ " into " ++
      toString (deeper.states.size + 1) ++ " at depth " ++ toString parent.depth)
    pure deeper.states.size
  have stays : Stays layout told pushed := by
    apply (Stays.forM _ fun meeting _ _ _ => stays_onWaiting meeting _).bind
    intro _ waited _ _
    apply (stays_tell _).bind
    intro _ later _ _
    exact Stays.pure _
  rw [← same, ← grown]
  exact stays

theorem addAlloca_run
    (execution : Execution)
    {place : Nat}
    {frame : Frame}
    (found : (execution.stateAt place).stack.getLast? = some frame)
    (object : MemoryObject) :
    addAlloca place (-1) object execution =
      .ok () (execution.setState place
        { execution.stateAt place with
          stack := (execution.stateAt place).stack.dropLast ++
            [{ frame with allocas := frame.allocas ++ [object] }] }) := by
  have fetched : Sequence.fetch (execution.stateAt place).stack (-1) .listIndex = .ok frame := by
    rw [Sequence.fetch, Sequence.get?_last, found]
    rfl
  have replaced (changed : Frame) :
      (Sequence.set? (execution.stateAt place).stack (-1) changed).getD
          (execution.stateAt place).stack =
        (execution.stateAt place).stack.dropLast ++ [changed] := by
    rw [Sequence.set?_last found]
    rfl
  unfold addAlloca onFrame
  rw [get_bind]
  simp only [fetched]
  exact congrArg (fun stack => EStateM.Result.ok ()
    (execution.setState place { execution.stateAt place with stack })) (replaced _)

/-- Allocating binds an object and lists it in the newest frame. -/
theorem layout_allocate
    (present : place < execution.states.size)
    (inside : (execution.stateAt place).space < execution.heap.spaces.size)
    (entered : (execution.stateAt place).stack ≠ [])
    (object : MemoryObject)
    (contents : Contents) :
    (final (Deed.run (.allocate place object contents)) execution).layout =
      execution.layout.allocate place object := by
  obtain ⟨frame, found⟩ := Option.ne_none_iff_exists'.mp (List.getLast?_eq_none_iff.not.mpr entered)
  have layers : ((execution.stateAt place).stack.dropLast ++
      [{ frame with allocas := frame.allocas ++ [object] }]).map Frame.allocas =
        (execution.layout.layers place).dropLast ++
          [((execution.layout.layers place).getLast?.getD []) ++ [object]] := by
    have last : (execution.layout.layers place).getLast? = some frame.allocas := by
      rw [← Option.map_some, ← found]
      exact List.getLast?_map
    rw [last, List.map_append, List.map_dropLast]
    rfl
  unfold Deed.run
  rw [final_bind_of_ok (onSpaceOf_bindFresh_run execution place object contents)]
  have ran := addAlloca_run
    { execution with
      heap := execution.heap.boundFresh (execution.stateAt place).space object contents }
    found object
  unfold final Layout.allocate
  rw [ran, ← layers]
  exact layout_revise present
    { execution.stateAt place with
      stack := (execution.stateAt place).stack.dropLast ++
        [{ frame with allocas := frame.allocas ++ [object] }] } rfl
    (Heap.size_spaces_bound _ _ _ _) (Heap.keys_boundFresh inside object contents)

/-- A state that has not moved to another space still has one. -/
theorem inside_of_layout
    {other : Execution}
    (space : other.layout.space = execution.layout.space)
    (spaces : other.layout.spaces = execution.layout.spaces)
    (inside : (execution.stateAt place).space < execution.heap.spaces.size) :
    (other.stateAt place).space < other.heap.spaces.size :=
  calc (other.stateAt place).space
      = (execution.stateAt place).space := congrFun space place
    _ < execution.heap.spaces.size := inside
    _ = other.heap.spaces.size := spaces.symm

theorem layout_forM_popFrame
    {α : Type}
    (elements : List α)
    (present : place < execution.states.size)
    (inside : (execution.stateAt place).space < execution.heap.spaces.size) :
    (final (elements.forM fun _ => popFrame place) execution).layout =
      (Layout.pop place)^[elements.length] execution.layout := by
  induction elements generalizing execution with
  | nil => rfl
  | cons element rest inductionHypothesis =>
      have popped := layout_popFrame present inside
      rw [List.length_cons, Function.iterate_succ_apply, ← popped]
      show (final (popFrame place >>= fun _ => rest.forM fun _ => popFrame place)
        execution).layout = _
      cases found : (execution.stateAt place).stack.getLast? with
      | none =>
          -- The stack is empty, and the frames that are left are none.
          have stuck := popFrame_of_empty found
          have empty : execution.layout.layers place = [] :=
            List.map_eq_nil_iff.mpr (List.getLast?_eq_none_iff.mp found)
          have fixed : Layout.pop place execution.layout = execution.layout := by
            unfold Layout.pop
            rw [empty]
            rfl
          unfold final
          rw [bind_of_error stuck, stuck]
          exact (Function.iterate_fixed fixed rest.length).symm
      | some frame =>
          have ran := popFrame_run found
          rw [final_bind_of_ok ran]
          unfold final at popped ⊢
          rw [ran] at popped ⊢
          apply inductionHypothesis
          · exact Nat.lt_of_lt_of_eq present (size_states_setState execution place _).symm
          · apply inside_of_layout _ _ inside
            · rw [popped, Layout.space_pop]
            · rw [popped, Layout.spaces_pop]

/-- A state that ends leaves all its frames. -/
theorem layout_terminate
    (present : place < execution.states.size)
    (inside : (execution.stateAt place).space < execution.heap.spaces.size) :
    (final (terminate place) execution).layout =
      (Layout.pop place)^[(execution.layout.layers place).length] execution.layout := by
  obtain ⟨left, ran, same, _, _⟩ :=
    forM_onWaiting (·.erase place) (execution.stateAt place).openMerges execution
  let emptied := left.setState place { left.stateAt place with openMerges := [] }
  have layout_left : left.layout = execution.layout := by
    rw [same]
    rfl
  have layout_emptied : emptied.layout = execution.layout :=
    (show emptied.layout = left.layout from layout_setState rfl rfl).trans layout_left
  have continues : terminate place execution =
      ((execution.stateAt place).stack.forM (fun _ => popFrame place) >>= fun _ =>
        tell ("terminated state " ++ toString (place + 1))) emptied :=
    bind_of_ok ran
  have ended : final (terminate place) execution =
      final ((execution.stateAt place).stack.forM (fun _ => popFrame place) >>= fun _ =>
        tell ("terminated state " ++ toString (place + 1))) emptied := by
    unfold final
    rw [continues]
  have height : (execution.layout.layers place).length = (execution.stateAt place).stack.length :=
    List.length_map _
  rw [ended, Stays.view_final_bind fun _ _ => stays_tell _, height, ← layout_emptied]
  apply layout_forM_popFrame
  · have states := congrArg Layout.states layout_emptied
    exact Nat.lt_of_lt_of_eq present states.symm
  · apply inside_of_layout _ _ inside
    · rw [layout_emptied]
    · rw [layout_emptied]

/-! ## Every deed -/

theorem stays_onSpaceOf
    {action : Nat → HeapM Unit}
    (stays : Stays Heap.directory (action (execution.stateAt place).space) execution.heap) :
    Stays layout (Action.onSpaceOf place action) execution :=
  Stays.get_bind (stays_onHeap stays)

/-- Every action has the effect on the layout that is named for it. -/
theorem leads_action
    {action : Action}
    (present : ∀ place ∈ action.places, place < execution.states.size)
    (inside : ∀ place < execution.states.size,
      (execution.stateAt place).space < execution.heap.spaces.size) :
    action.effect.Leads execution.layout (final action.run execution).layout := by
  cases action with
  | create function patch options =>
      unfold Action.run
      rw [final_bind_pure]
      exact leads_newState function patch options
  | fork place =>
      unfold Action.run
      rw [final_bind_pure]
      exact layout_fork execution place
  | enter place caller function =>
      exact leads_pushFrame (present place List.mem_cons_self) caller function
  | leave place =>
      have isState := present place List.mem_cons_self
      exact layout_popFrame isState (inside place isState)
  | jump place pc => exact layout_setState rfl rfl
  | assign place frame register value => exact stays_setLocal place frame register value
  | constrain place constraint => exact stays_addConstraint place constraint
  | mark place object array => exact layout_setState rfl rfl
  | bind place object contents =>
      exact layout_bind (inside place (present place List.mem_cons_self)) object contents
  | unbind place object => trivial
  | write place object offset value =>
      show Stays layout (Action.run (.write place object offset value)) execution
      unfold Action.run
      apply stays_onSpaceOf
      apply Heap.stays_update
      intro target heap
      exact Heap.stays_write target offset value
  | writeByte place object offset value =>
      show Stays layout (Action.run (.writeByte place object offset value)) execution
      unfold Action.run
      apply stays_onSpaceOf
      apply Heap.stays_update
      intro target heap
      exact Heap.stays_onContents target _
  | merge place otherPlace =>
      unfold Action.run
      rw [final_bind_pure]
      exact stays_merge place otherPlace

/-- So has every event. -/
theorem leads_event
    {event : Event}
    (present : ∀ place ∈ event.places, place < execution.states.size)
    (inside : ∀ place < execution.states.size,
      (execution.stateAt place).space < execution.heap.spaces.size) :
    event.effect.Leads execution.layout (final event.run execution).layout := by
  cases event with
  | act action => exact leads_action present inside
  | renumber place patch => exact layout_setState rfl rfl
  | meet => exact rfl
  | openMerge place meeting => exact layout_setState rfl rfl
  | closeMerge place meeting => exact stays_closeMerge place meeting
  | release registration => exact stays_closeMerge _ _
  | terminate place =>
      have isState := present place List.mem_cons_self
      exact layout_terminate isState (inside place isState)

/-- The execution after a deed, be it with a fault. -/
def perform (execution : Execution) (deed : Deed) : Execution :=
  final deed.run execution

/-- A deed leads where its effect does, if a frame that allocates is there. -/
theorem leads_perform
    {deed : Deed}
    (present : ∀ place ∈ deed.places, place < execution.states.size)
    (inside : ∀ place < execution.states.size,
      (execution.stateAt place).space < execution.heap.spaces.size)
    (entered : ∀ place object, deed.effect = .allocate place object →
      (execution.stateAt place).stack ≠ []) :
    deed.effect.Leads execution.layout (execution.perform deed).layout := by
  cases deed with
  | happen event => exact leads_event present inside
  | allocate place object contents =>
      have isState := present place List.mem_cons_self
      exact layout_allocate isState (inside place isState) (entered place object rfl) object
        contents

end Execution

end Diverge
