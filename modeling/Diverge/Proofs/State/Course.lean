import Diverge.Proofs.State.System

/-!
# The course of an execution

Besides being forked, changed and merged, states open and close rendezvous, are given
another revision to run, and end.  An *event* is anything of this kind.  Systems in
which any events have happened are sound (`System.Attainable.sound`).

Most of what is done leaves most of what there is: `Execution.Leaves` says of a
computation that one field of every state, and who waits where, stays as it was.
-/

namespace Diverge

open Stateful

namespace Execution

/-! ## What a computation leaves -/

section

variable {ι α β : Type} {field : ExecState → ι}

/-- No state was lost, a field of every state is as it was, and the same states wait. -/
structure Unmoved (field : ExecState → ι) (before after : Execution) : Prop where
  size_le : before.states.size ≤ after.states.size
  field_eq : ∀ place, field (after.stateAt place) = field (before.stateAt place)
  rendezvous_eq : after.rendezvous = before.rendezvous

/-- However a computation ends, it leaves a field of every state and who waits. -/
def Leaves (field : ExecState → ι) (action : ExecutionM α) : Prop :=
  ∀ execution, Moves (Unmoved field) action execution fun _ _ => True

theorem Unmoved.refl
    (execution : Execution) :
    execution.Unmoved field execution :=
  ⟨Nat.le_refl _, fun _ => rfl, rfl⟩

theorem Unmoved.trans
    ⦃first second third : Execution⦄
    (before : first.Unmoved field second)
    (after : second.Unmoved field third) :
    first.Unmoved field third where
  size_le := Nat.le_trans before.size_le after.size_le
  field_eq := fun place => (after.field_eq place).trans (before.field_eq place)
  rendezvous_eq := after.rendezvous_eq.trans before.rendezvous_eq

theorem unmoved_setState
    {execution : Execution}
    {place : Nat}
    {state : ExecState}
    (same : field state = field (execution.stateAt place)) :
    execution.Unmoved field (execution.setState place state) := by
  refine ⟨by simp, fun other => ?_, rfl⟩
  rw [stateAt_setState]
  split
  next here => rw [same, here.1]
  next => rfl

/-- A state more, with the field that stands for no state. -/
theorem unmoved_pushState
    {execution : Execution}
    {state : ExecState}
    (same : field state = field default) :
    execution.Unmoved field (execution.pushState state) := by
  refine ⟨?_, fun other => ?_, rfl⟩
  · exact Nat.le_of_lt (by simp [pushState])
  · rw [stateAt_pushState]
    split
    next isNew => rw [same, isNew]; simp [stateAt]
    next => rfl

theorem Leaves.pure
    (result : α) :
    Leaves field (pure result) :=
  fun execution => Moves.pure (Unmoved.refl execution) trivial

theorem Leaves.throw
    (fault : Fault) :
    Leaves field (throw fault : ExecutionM α) :=
  fun execution => Moves.throw (Unmoved.refl execution) not_false

theorem Leaves.ofExcept
    (outcome : Except Fault α) :
    Leaves field (ofExcept outcome : ExecutionM α) :=
  fun execution => Moves.ofExcept (Unmoved.refl execution) fun _ _ => trivial

theorem Leaves.get :
    Leaves field get :=
  fun execution => ⟨Unmoved.refl execution, trivial⟩

/-- Actions that leave a field of the states alone compose. -/
theorem Leaves.bind
    {action : ExecutionM α}
    {next : α → ExecutionM β}
    (first : Leaves field action)
    (second : ∀ result, Leaves field (next result)) :
    Leaves field (action >>= next) :=
  fun execution => Moves.bind Unmoved.trans ((first execution).mono
    fun result middle _ _ => second result middle)

theorem Leaves.forM
    {action : α → ExecutionM Unit}
    (elements : List α)
    (each : ∀ element, Leaves field (action element)) :
    Leaves field (elements.forM action) :=
  fun _ => Moves.forM Unmoved.trans (fun state _ => Unmoved.refl state) elements
    (fun element _ state _ => each element state) trivial

/-- An execution that goes on in a way that leaves the field. -/
theorem Leaves.unmoved_final
    {action rest : ExecutionM α}
    {execution middle : Execution}
    (leaves : Leaves field rest)
    (continues : action execution = rest middle) :
    middle.Unmoved field (final action execution) := by
  unfold final
  rw [continues]
  exact (leaves middle).final

/-- What is done to memory leaves every field of the states alone. -/
theorem leaves_onHeap
    (action : HeapM α) :
    Leaves field (onHeap action) := by
  intro execution
  have stays (heap : Heap) : execution.Unmoved field { execution with heap } :=
    ⟨Nat.le_refl _, fun _ => rfl, rfl⟩
  unfold Moves onHeap
  cases action execution.heap with
  | ok result heap => exact ⟨stays heap, trivial⟩
  | error fault heap => exact ⟨stays heap, not_false⟩

/-- What is built does not depend on the execution, its table of expressions apart. -/
theorem yields_build
    {execution : Execution}
    {action : Build α}
    {after : α → Prop}
    (yields : ∀ table, Yields action table fun result _ => after result) :
    Yields (build action) execution fun result _ => after result := by
  intro result later ran
  unfold build onHeap Heap.build at ran
  cases made : action execution.heap.table with
  | ok value table =>
      rw [made] at ran
      cases ran
      exact yields _ made
  | error fault table =>
      rw [made] at ran
      cases ran

theorem leaves_onState
    {change : ExecState → ExecState}
    (same : ∀ state, field (change state) = field state)
    (place : Nat) :
    Leaves field (onState place change) :=
  fun _ => Moves.modify (unmoved_setState (same _)) trivial

theorem leaves_tell
    (line : String) :
    Leaves field (tell line) :=
  fun _ => Moves.modify ⟨Nat.le_refl _, fun _ => rfl, rfl⟩ trivial

/-- Adding a constraint leaves fields alone that do not look at constraints. -/
theorem leaves_addConstraint
    (ignored : ∀ state constraints, field { state with constraints } = field state)
    (place : Nat)
    (constraint : Expr) :
    Leaves field (addConstraint place constraint) := by
  refine Leaves.get.bind fun execution => ?_
  split
  · exact leaves_onState (fun state => ignored state _) place
  · exact (leaves_onState (fun state => ignored state _) place).bind fun _ => Leaves.throw _

/-! ## Merges -/

theorem leaves_trace
    (options : Options)
    (line : String) :
    Leaves field (trace options line) := by
  unfold trace
  split
  · exact leaves_tell line
  · exact Leaves.pure ()

theorem leaves_traceText
    (options : Options)
    (label : String)
    (written : Except Fault String) :
    Leaves field (traceText options label written) := by
  cases written with
  | ok text => exact leaves_trace options _
  | error fault => exact Leaves.pure ()

theorem leaves_traceOverlap
    (options : Options)
    (overlap : Overlap) :
    Leaves field (traceOverlap options overlap) := by
  have leavesList (label : String) (expressions : List Expr) :
      Leaves field (traceList options label expressions) :=
    (Leaves.ofExcept _).bind fun _ => leaves_trace options _
  exact (leavesList _ _).bind fun _ => (leavesList _ _).bind fun _ => leavesList _ _

/-- Comparing memory leaves all states alone. -/
theorem leaves_compareMemory
    (options : Options)
    (left right : Space) :
    Leaves field (compareMemory options left right) :=
  (leaves_trace _ _).bind fun _ => (leaves_traceText _ _ _).bind fun _ =>
    (leaves_traceText _ _ _).bind fun _ => (Leaves.forM _ (leaves_trace options)).bind fun _ =>
      Leaves.pure _

theorem leaves_traceMerged
    (place : Nat) :
    Leaves field (traceMerged place) :=
  Leaves.get.bind fun _ => leaves_traceText _ _ _

/-- What a merge does once the frames are merged. -/
theorem leaves_absorbed
    (ignored : ∀ state constraints, field { state with constraints } = field state)
    (place : Nat)
    (memory : HeapM Unit)
    (common : List Expr)
    (either : Build Expr) :
    Leaves field (do
      onHeap memory
      onState place ({ · with constraints := {} })
      common.forM (addConstraint place)
      addConstraint place (← build either)) :=
  (leaves_onHeap memory).bind fun _ =>
    (leaves_onState (fun state => ignored state _) place).bind fun _ =>
      (Leaves.forM common (leaves_addConstraint ignored place)).bind fun _ =>
        (leaves_onHeap _).bind fun _ => leaves_addConstraint ignored place _

/-- A merge changes nothing of its receiver but the frames and the constraints. -/
theorem leaves_merge
    (ignoredStack : ∀ state stack, field { state with stack } = field state)
    (ignored : ∀ state constraints, field { state with constraints } = field state)
    (place otherPlace : Nat) :
    Leaves field (merge place otherPlace) := by
  refine Leaves.get.bind fun execution => Leaves.get.bind fun _ => ?_
  refine (leaves_trace _ _).bind fun _ => ?_
  split
  · refine (leaves_traceOverlap _ _).bind fun _ => Leaves.get.bind fun compared => ?_
    refine (leaves_compareMemory _ _ _).bind fun outcome => ?_
    cases outcome with
    | none => exact Leaves.pure false
    | some mutated =>
        refine Leaves.bind ?_ fun _ => (leaves_traceMerged place).bind fun _ => Leaves.pure true
        exact (leaves_onHeap _).bind fun _ => (leaves_onHeap _).bind fun _ =>
          (leaves_onHeap _).bind fun _ =>
            (leaves_onState (fun state => ignoredStack state _) place).bind fun _ =>
              leaves_absorbed ignored place _ _ _
  · exact Leaves.pure false

/-! ## States and frames -/

theorem leaves_pushFrame
    (ignored : ∀ state stack, field { state with stack } = field state)
    (place : Nat)
    (caller : Option Instruction)
    (function : Function) :
    Leaves field (pushFrame place caller function) :=
  (Leaves.ofExcept _).bind fun _ => leaves_onState (fun state => ignored state _) place

theorem leaves_popFrame
    (ignored : ∀ state stack, field { state with stack } = field state)
    (place : Nat) :
    Leaves field (popFrame place) := by
  refine Leaves.get.bind fun execution => ?_
  dsimp only
  split
  · exact Leaves.throw _
  · exact (leaves_onState (fun state => ignored state _) place).bind fun _ => leaves_onHeap _

theorem leaves_setLocal
    (ignored : ∀ state stack, field { state with stack } = field state)
    (place : Nat)
    (index register : Int)
    (value : Option Expr) :
    Leaves field (setLocal place index register value) :=
  Leaves.get.bind fun _ => (Leaves.ofExcept _).bind fun _ => (Leaves.ofExcept _).bind fun _ =>
    leaves_onState (fun state => ignored state _) place

/-- A new state has opened no rendezvous. -/
theorem leaves_newState
    (function : Function)
    (patch : Option Int)
    (options : Options) :
    Leaves ExecState.openMerges (newState function patch options) := by
  unfold newState
  split
  · exact Leaves.throw _
  · refine (leaves_onHeap _).bind fun space => Leaves.get.bind fun execution => ?_
    refine Leaves.bind (fun _ => Moves.modify (unmoved_pushState rfl) trivial) fun _ => ?_
    exact (leaves_pushFrame (fun _ _ => rfl) _ _ _).bind fun _ => Leaves.pure _

end

end Execution

/-- Nothing that is done to a state changes what is open, a fork apart. -/
theorem Action.leaves_run
    (action : Action)
    (noFork : ∀ place, action ≠ .fork place) :
    Execution.Leaves ExecState.openMerges action.run := by
  have onSpaceOf (place : Nat) (action : Nat → HeapM Unit) :
      Execution.Leaves ExecState.openMerges (onSpaceOf place action) :=
    Execution.Leaves.get.bind fun _ => Execution.leaves_onHeap _
  cases action with
  | create function patch options =>
      exact (Execution.leaves_newState function patch options).bind
        fun _ => Execution.Leaves.pure ()
  | fork place => exact absurd rfl (noFork place)
  | enter place caller function => exact Execution.leaves_pushFrame (fun _ _ => rfl) _ _ _
  | leave place => exact Execution.leaves_popFrame (fun _ _ => rfl) place
  | jump place pc =>
      show Execution.Leaves _ (Execution.onState place ({ · with pc }))
      apply Execution.leaves_onState
      exact fun _ => rfl
  | assign place frame register value =>
      exact Execution.leaves_setLocal (fun _ _ => rfl) _ _ _ _
  | constrain place constraint =>
      exact Execution.leaves_addConstraint (fun _ _ => rfl) _ _
  | mark place object array =>
      show Execution.Leaves _ (Execution.addSymbolic place object array)
      apply Execution.leaves_onState
      exact fun _ => rfl
  | bind place object contents =>
      unfold run
      exact onSpaceOf place _
  | unbind place object =>
      unfold run
      exact onSpaceOf place _
  | write place object offset value =>
      unfold run
      exact onSpaceOf place _
  | writeByte place object offset value =>
      unfold run
      exact onSpaceOf place _
  | merge place otherPlace =>
      exact (Execution.leaves_merge (fun _ _ => rfl) (fun _ _ => rfl) place otherPlace).bind
        fun _ => Execution.Leaves.pure ()

/-! ## Events -/

/-- Anything that happens to states and rendezvous. -/
inductive Event where
  | act (action : Action)
  /-- Let a state run another revision. -/
  | renumber (place : Nat) (patch : Option Int)
  /-- Make a rendezvous. -/
  | meet
  | openMerge (place meeting : Nat)
  | closeMerge (place meeting : Nat)
  | release (registration : Registration)
  | terminate (place : Nat)

namespace Event

/-- What happens. -/
def run : Event → ExecutionM Unit
  | .act action => action.run
  | .renumber place patch => Execution.onState place ({ · with patch })
  | .meet => do
      let _ ← Execution.newRendezvous
  | .openMerge place meeting => do
      let _ ← Execution.openMerge place meeting
  | .closeMerge place meeting => Execution.closeMerge place meeting
  | .release registration => Execution.release registration
  | .terminate place => Execution.terminate place

/-- The states that it happens to. -/
def places : Event → List Nat
  | .act action => action.places
  | .meet => []
  | .renumber place _ | .openMerge place _ | .closeMerge place _ | .terminate place => [place]
  | .release registration => [registration.place]

/-- The rendezvous that it is about. -/
def meetings : Event → List Nat
  | .openMerge _ meeting | .closeMerge _ meeting => [meeting]
  | .release registration => [registration.meeting]
  | _ => []

/-- The expressions that it happens with. -/
def uses : Event → List Expr
  | .act action => action.uses
  | _ => []

section

variable {histories : List Updates} {execution : Execution}

/-- Closing a meeting keeps the execution sound, also if there is none to close. -/
theorem moves_closeMerge
    (sound : execution.Sound histories)
    (place meeting : Nat) :
    Moves (Execution.Evolves histories) (Execution.closeMerge place meeting) execution
      fun _ _ => True := by
  have state := sound.states place
  unfold Execution.closeMerge Moves
  rw [get_bind]
  change Moves (Execution.Evolves histories) _ execution fun _ _ => True
  split
  · refine Moves.bind Execution.Evolves.trans ((Execution.moves_onState sound
      ⟨state.registers, state.constraints, state.flat⟩ rfl).mono ?_)
    intro _ middle evolves _
    exact Execution.moves_onWaiting evolves.sound meeting _
  · exact Moves.pure (Execution.Evolves.refl sound) trivial

/-- So does ending a state. -/
theorem moves_terminate
    (sound : execution.Sound histories)
    (place : Nat) :
    Moves (Execution.Evolves histories) (Execution.terminate place) execution
      fun _ _ => True := by
  have each {α : Type} {action : α → ExecutionM Unit} (elements : List α)
      {middle : Execution} (soundThere : middle.Sound histories)
      (moves : ∀ element, ∀ state : Execution, state.Sound histories →
        Moves (Execution.Evolves histories) (action element) state fun _ _ => True) :
      Moves (Execution.Evolves histories) (elements.forM action) middle
        fun _ later => later.Sound histories :=
    Moves.forM Execution.Evolves.trans (fun _ => Execution.Evolves.refl) elements
      (fun element _ state there => (moves element state there).mono
        fun _ _ evolves _ => evolves.sound) soundThere
  unfold Execution.terminate Moves
  rw [get_bind]
  refine Moves.bind Execution.Evolves.trans ((each _ sound fun meeting _ there =>
    Execution.moves_onWaiting there meeting _).mono ?_)
  intro _ left _ soundLeft
  have state := soundLeft.states place
  refine Moves.bind Execution.Evolves.trans ((Execution.moves_onState soundLeft
    ⟨state.registers, state.constraints, state.flat⟩ rfl).mono ?_)
  intro _ closed evolves _
  refine Moves.bind Execution.Evolves.trans ((each _ evolves.sound fun _ _ there =>
    Execution.moves_popFrame there place).mono ?_)
  intro _ ended _ soundEnded
  exact Execution.moves_tell soundEnded _

/-- Nothing that happens makes a sound execution unsound. -/
theorem moves_run
    (sound : execution.Sound histories)
    {event : Event}
    (present : ∀ place ∈ event.places, place < execution.states.size)
    (registered : ∀ expression ∈ event.uses,
      expression.Registered histories execution.heap.table) :
    Moves (Execution.Evolves histories) event.run execution fun _ _ => True := by
  cases event with
  | act action => exact Action.moves_run sound present registered
  | renumber place patch =>
      have state := sound.states place
      unfold run
      exact (Execution.moves_onState sound
        ⟨state.registers, state.constraints, state.flat⟩ rfl).mono fun _ _ _ _ => trivial
  | meet => exact ⟨sound.withRendezvous _, trivial⟩
  | openMerge place meeting =>
      have state := sound.states place
      unfold run Execution.openMerge
      refine Moves.bind Execution.Evolves.trans (Moves.bind Execution.Evolves.trans
        ((Execution.moves_onState sound
          ⟨state.registers, state.constraints, state.flat⟩ rfl).mono ?_))
      intro _ middle evolves _
      refine Moves.bind Execution.Evolves.trans
        ((Execution.moves_onWaiting evolves.sound meeting _).mono ?_)
      intro _ later evolvesToo _
      have stays := Execution.Evolves.refl evolvesToo.sound
      exact Moves.pure stays (Moves.pure stays trivial)
  | closeMerge place meeting => exact moves_closeMerge sound place meeting
  | release registration => exact moves_closeMerge sound _ _
  | terminate place => exact moves_terminate sound place

end

end Event

/-! ## Runs -/

namespace Execution

/-- The execution after an event, be it with a fault. -/
def undergo (execution : Execution) (event : Event) : Execution :=
  final event.run execution

/-- Each event finds its states and rendezvous when its turn comes. -/
def admits : Execution → List Event → Bool
  | _, [] => true
  | execution, event :: rest =>
      event.places.all (· < execution.states.size) &&
        event.meetings.all (· < execution.rendezvous.size) &&
          (execution.undergo event).admits rest

/--
A run is admitted if its first event names states and meetings that there are, and the rest is
admitted after it.
-/
theorem admits_cons
    {execution : Execution}
    {event : Event}
    {rest : List Event} :
    execution.admits (event :: rest) = true ↔
      (∀ place ∈ event.places, place < execution.states.size) ∧
        (∀ meeting ∈ event.meetings, meeting < execution.rendezvous.size) ∧
          (execution.undergo event).admits rest = true := by
  simp [admits, and_assoc]

end Execution

/-! ## Systems -/

namespace System

/-- The system after an event, be it with a fault. -/
def undergo (system : System) (event : Event) : System :=
  { system with execution := system.execution.undergo event }

/-- One step, or an event with what is at hand. -/
inductive Turn (system : System) : System → Prop where
  | step {later : System} (step : system.Step later) : Turn system later
  | undergo
      {event : Event}
      (present : ∀ place ∈ event.places, place < system.execution.states.size)
      (atHand : ∀ expression ∈ event.uses, expression ∈ system.expressions) :
      Turn system (system.undergo event)

/-- A system that is reached from the empty one by steps and events. -/
def Attainable (system : System) : Prop :=
  Relation.ReflTransGen Turn {} system

theorem Reachable.attainable
    {system : System}
    (reached : system.Reachable) :
    system.Attainable :=
  reached.lift id fun _ _ => .step

/-- Every execution that can be attained is sound. -/
theorem Attainable.sound
    {system : System}
    (attained : system.Attainable) :
    system.Sound := by
  induction attained with
  | refl => exact ⟨Execution.sound_empty, by simp⟩
  | tail _ turn sound =>
      cases turn with
      | step step => exact step.sound sound
      | undergo present atHand =>
          have evolves := (Event.moves_run sound.execution present fun expression used =>
            sound.registered expression (atHand expression used)).final
          exact ⟨evolves.sound, fun expression member =>
            (sound.registered expression member).grow evolves.grows⟩

/-- An admitted run leads from an attainable system to an attainable one. -/
theorem Attainable.foldl_undergo
    {system : System}
    {events : List Event}
    (attained : system.Attainable)
    (atHand : ∀ event ∈ events, ∀ expression ∈ event.uses,
      expression ∈ system.expressions)
    (admitted : system.execution.admits events = true) :
    (events.foldl System.undergo system).Attainable := by
  induction events generalizing system with
  | nil => exact attained
  | cons event rest inductionHypothesis =>
      obtain ⟨present, _, later⟩ := Execution.admits_cons.1 admitted
      have turn : system.Turn (system.undergo event) :=
        .undergo present (atHand event List.mem_cons_self)
      exact inductionHypothesis (Relation.ReflTransGen.tail attained turn)
        (fun other member => atHand other (List.mem_cons_of_mem _ member)) later

end System

end Diverge
