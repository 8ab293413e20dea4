import Diverge.Proofs.State.Merge

/-!
# Systems of states

A system is an execution together with the histories and expressions at hand.  It
starts empty.  Expressions are made by the constructors from what is at hand, or
taken from where a state holds them; states are created, forked, changed and merged.
Whatever is done, and whether or not it ends with a fault, the execution stays sound
(`System.Reachable.sound`).
-/

namespace Diverge

open Stateful

/-! ## What is done to states -/

/-- One thing that is done to the states of an execution. -/
inductive Action where
  | create (function : Function) (patch : Option Int) (options : Options)
  | fork (place : Nat)
  | enter (place : Nat) (caller : Option Instruction) (function : Function)
  | leave (place : Nat)
  | jump (place : Nat) (pc : Option Instruction)
  | assign (place : Nat) (frame register : Int) (value : Option Expr)
  | constrain (place : Nat) (constraint : Expr)
  | mark (place : Nat) (object : MemoryObject) (array : ArrayDecl)
  | bind (place : Nat) (object : MemoryObject) (contents : Contents)
  | unbind (place : Nat) (object : MemoryObject)
  | write (place : Nat) (object : MemoryObject) (offset : Int) (value : Expr)
  | writeByte (place : Nat) (object : MemoryObject) (offset : Int) (value : Expr)
  | merge (place otherPlace : Nat)

namespace Action

/-- Do something on the space of a state. -/
def onSpaceOf (place : Nat) (action : Nat → HeapM Unit) : ExecutionM Unit := do
  Execution.onHeap (action ((← get).stateAt place).space)

/-- Do it. -/
def run : Action → ExecutionM Unit
  | .create function patch options => do
      let _ ← Execution.newState function patch options
  | .fork place => do
      let _ ← Execution.fork place
  | .enter place caller function => Execution.pushFrame place caller function
  | .leave place => Execution.popFrame place
  | .jump place pc => Execution.onState place ({ · with pc })
  | .assign place frame register value => Execution.setLocal place frame register value
  | .constrain place constraint => Execution.addConstraint place constraint
  | .mark place object array => Execution.addSymbolic place object array
  | .bind place object contents =>
      onSpaceOf place fun space => Heap.bindFresh space object contents
  | .unbind place object => onSpaceOf place fun space => Heap.unbind space object
  | .write place object offset value =>
      onSpaceOf place fun space => Heap.update space object fun target =>
        Heap.write target offset value
  | .writeByte place object offset value =>
      onSpaceOf place fun space => Heap.update space object fun target =>
        Heap.onContents target (Contents.writeByte offset value)
  | .merge place otherPlace => do
      let _ ← Execution.merge place otherPlace

/-- The expressions that it is done with. -/
def uses : Action → List Expr
  | .assign _ _ _ value => value.toList
  | .constrain _ constraint => [constraint]
  | .bind _ _ contents => contents.bytes
  | .write _ _ _ value | .writeByte _ _ _ value => [value]
  | _ => []

/-- The states that it is done to. -/
def places : Action → List Nat
  | .create .. => []
  | .fork place | .enter place _ _ | .leave place | .jump place _ | .assign place _ _ _
  | .constrain place _ | .mark place _ _ | .bind place _ _ | .unbind place _
  | .write place _ _ _ | .writeByte place _ _ _ => [place]
  | .merge place otherPlace => [place, otherPlace]

section

variable {histories : List Updates} {execution : Execution}

theorem moves_onSpaceOf
    (sound : execution.Sound histories)
    (place : Nat)
    (action : Nat → HeapM Unit)
    (moves : Moves (Heap.Evolves histories) (action (execution.stateAt place).space)
      execution.heap fun _ _ => True) :
    Moves (Execution.Evolves histories) (onSpaceOf place action) execution
      fun _ _ => True :=
  (Execution.moves_onHeap sound moves).mono fun _ _ _ _ => trivial

/-- Nothing that is done makes a sound execution unsound. -/
theorem moves_run
    (sound : execution.Sound histories)
    {action : Action}
    (present : ∀ place ∈ action.places, place < execution.states.size)
    (registered : ∀ expression ∈ action.uses,
      expression.Registered histories execution.heap.table) :
    Moves (Execution.Evolves histories) action.run execution fun _ _ => True := by
  have ended (later : Execution) (evolves : execution.Evolves histories later) :
      Moves (Execution.Evolves histories) (pure () : ExecutionM Unit) later
        fun _ _ => True :=
    Moves.pure (Execution.Evolves.refl evolves.sound) trivial
  cases action with
  | create function patch options =>
      exact Moves.bind Execution.Evolves.trans
        ((Execution.moves_newState sound function patch options).mono
          fun _ later evolves _ => ended later evolves)
  | fork place =>
      exact Moves.bind Execution.Evolves.trans ((Execution.moves_fork sound place).mono
        fun _ later evolves _ => ended later evolves)
  | enter place caller function =>
      exact Execution.moves_pushFrame sound place caller function
  | leave place => exact Execution.moves_popFrame sound place
  | jump place pc =>
      have state := sound.states place
      have moved : ExecState.Sound histories execution.heap.table
          { execution.stateAt place with pc } :=
        ⟨state.registers, state.constraints, state.flat⟩
      unfold run
      exact (Execution.moves_onState sound moved rfl).mono fun _ _ _ _ => trivial
  | assign place frame register value =>
      refine Execution.moves_setLocal sound place frame register fun expression given => ?_
      exact registered expression (Option.mem_toList.2 given)
  | constrain place constraint =>
      exact (Execution.moves_addConstraint sound
        (registered constraint List.mem_cons_self) False.elim).mono fun _ _ _ _ => trivial
  | mark place object array => exact Execution.moves_addSymbolic sound place object array
  | bind place object contents =>
      unfold run
      exact moves_onSpaceOf sound place _ (Heap.moves_bindFresh sound.heap registered)
  | unbind place object =>
      unfold run
      exact moves_onSpaceOf sound place _ ⟨sound.heap.unbound _ object, trivial⟩
  | write place object offset value =>
      unfold run
      refine moves_onSpaceOf sound place _ (Heap.moves_update sound.heap ?_)
      intro target middle evolves grants
      exact (Heap.moves_write evolves.sound grants offset
        ((registered value List.mem_cons_self).grow evolves.grows)).mono
          fun _ _ _ _ => trivial
  | writeByte place object offset value =>
      unfold run
      refine moves_onSpaceOf sound place _ (Heap.moves_update sound.heap ?_)
      intro target middle evolves grants
      exact (Heap.moves_onContents evolves.sound grants offset
        ((registered value List.mem_cons_self).grow evolves.grows) False.elim).mono
          fun _ _ _ _ => trivial
  | merge place otherPlace =>
      exact Moves.bind Execution.Evolves.trans ((Execution.moves_merge sound
        (present place List.mem_cons_self) otherPlace False.elim).mono
          fun _ later evolves _ => ended later evolves)

end

end Action

/-- A sound execution stays sound while histories and expressions are made. -/
theorem Execution.Sound.extend
    {histories more : List Updates}
    {execution : Execution}
    {table : Table}
    (sound : execution.Sound histories)
    (grows : execution.heap.table.Grows table)
    (included : ∀ updates ∈ histories, updates ∈ more)
    (supports : table.Supports more) :
    Execution.Sound more { execution with heap := { execution.heap with table } } where
  heap := {
    supports
    owned := sound.heap.owned.withTable table
    bytes := fun identity byte member =>
      (sound.heap.bytes identity byte member).extend grows included }
  states := fun place => {
    registers := fun frame member value inside =>
      ((sound.states place).registers frame member value inside).extend grows included
    constraints := fun entry member =>
      ((sound.states place).constraints entry member).extend grows included
    flat := (sound.states place).flat }
  space_lt := sound.space_lt
  space_ne := sound.space_ne

/-! ## Systems -/

/-- An execution, and the histories and expressions at hand. -/
structure System where
  execution : Execution := {}
  histories : List Updates := []
  expressions : List Expr := []

namespace System

/-- The table with all that is at hand. -/
def workshop (system : System) : Workshop where
  table := system.execution.heap.table
  histories := system.histories
  expressions := system.expressions

/-- The system with a workshop in place of its own. -/
def equip (system : System) (workshop : Workshop) : System where
  execution :=
    { system.execution with heap := { system.execution.heap with table := workshop.table } }
  histories := workshop.histories
  expressions := workshop.expressions

/-- The system after something was done, be it with a fault. -/
def act (system : System) (action : Action) : System :=
  { system with execution := Stateful.final action.run system.execution }

/-- A register, a constraint or a byte, or an operand of what is at hand. -/
inductive Offers (system : System) : Expr → Prop where
  | register
      {place : Nat}
      {frame : Frame}
      {expression : Expr}
      (live : frame ∈ (system.execution.stateAt place).stack)
      (defined : some expression ∈ frame.locals) :
      Offers system expression
  | constraint
      {place : Nat}
      {expression : Expr}
      (entry : expression ∈ (system.execution.stateAt place).constraints.entries) :
      Offers system expression
  | byte
      {identity : Nat}
      {expression : Expr}
      (stored : expression ∈ (system.execution.heap.contentsAt identity).bytes) :
      Offers system expression
  | operand
      {parent expression : Expr}
      (atHand : parent ∈ system.expressions)
      (kid : expression ∈ parent.kids) :
      Offers system expression

/-- One step: something is made, taken, or done with what is at hand. -/
inductive Step (system : System) : System → Prop where
  | make
      {workshop : Workshop}
      (step : system.workshop.Step workshop) :
      Step system (system.equip workshop)
  | take
      {expression : Expr}
      (offered : system.Offers expression) :
      Step system { system with expressions := expression :: system.expressions }
  | act
      {action : Action}
      (present : ∀ place ∈ action.places, place < system.execution.states.size)
      (atHand : ∀ expression ∈ action.uses, expression ∈ system.expressions) :
      Step system (system.act action)

/-- A system that is reached from the empty one. -/
def Reachable (system : System) : Prop :=
  Relation.ReflTransGen Step {} system

/-- The execution is sound, and all that is at hand is registered. -/
structure Sound (system : System) : Prop where
  execution : system.execution.Sound system.histories
  registered : ∀ expression ∈ system.expressions,
    expression.Registered system.histories system.execution.heap.table

section

variable {system : System}

theorem Sound.workshop
    (sound : system.Sound) :
    system.workshop.Sound :=
  ⟨sound.execution.heap.supports, sound.registered⟩

/-- What a sound system offers is registered. -/
theorem Offers.registered
    {expression : Expr}
    (offered : system.Offers expression)
    (sound : system.Sound) :
    expression.Registered system.histories system.execution.heap.table := by
  cases offered with
  | register live defined =>
      exact (sound.execution.states _).registers _ live expression defined
  | constraint entry => exact (sound.execution.states _).constraints expression entry
  | byte stored => exact sound.execution.heap.bytes _ expression stored
  | operand atHand kid => exact (sound.registered _ atHand).kid kid

/-- Every step of a system keeps it sound: constructions and actions. -/
theorem Step.sound
    {later : System}
    (step : system.Step later)
    (sound : system.Sound) :
    later.Sound := by
  cases step with
  | make step =>
      have made := step.sound sound.workshop
      exact ⟨sound.execution.extend step.extends.grows step.extends.included made.supports,
        made.registered⟩
  | take offered =>
      refine ⟨sound.execution, ?_⟩
      intro expression member
      rcases List.mem_cons.1 member with rfl | old
      · exact offered.registered sound
      · exact sound.registered expression old
  | act present atHand =>
      have evolves := (Action.moves_run sound.execution present fun expression used =>
        sound.registered expression (atHand expression used)).final
      exact ⟨evolves.sound, fun expression member =>
        (sound.registered expression member).grow evolves.grows⟩

/-- Every reachable system is sound. -/
theorem Reachable.sound
    (reached : system.Reachable) :
    system.Sound := by
  induction reached with
  | refl => exact ⟨Execution.sound_empty, by simp⟩
  | tail _ step inductionHypothesis => exact step.sound inductionHypothesis

/-! ## Reaching a system -/

theorem Reachable.equip
    {workshop : Workshop}
    (reached : workshop.Reachable) :
    (System.equip {} workshop).Reachable := by
  induction reached with
  | refl => exact Relation.ReflTransGen.refl
  | @tail middle later _ step inductionHypothesis =>
      have made : Step (System.equip {} middle) (System.equip {} later) := .make step
      exact Relation.ReflTransGen.tail inductionHypothesis made

/-- Each action finds its states when its turn comes. -/
def admits : System → List Action → Bool
  | _, [] => true
  | system, action :: rest =>
      action.places.all (· < system.execution.states.size) && (system.act action).admits rest

/-- Actions that are admitted, on expressions at hand, lead to a system that can be reached. -/
theorem Reachable.foldl_act
    {actions : List Action}
    (reached : system.Reachable)
    (atHand : ∀ action ∈ actions, ∀ expression ∈ action.uses,
      expression ∈ system.expressions)
    (admitted : system.admits actions = true) :
    (actions.foldl System.act system).Reachable := by
  induction actions generalizing system with
  | nil => exact reached
  | cons action rest inductionHypothesis =>
      unfold admits at admitted
      rw [Bool.and_eq_true, List.all_eq_true] at admitted
      have step : system.Step (system.act action) :=
        .act (fun place member => by simpa using admitted.1 place member)
          (atHand action List.mem_cons_self)
      exact inductionHypothesis (Relation.ReflTransGen.tail reached step)
        (fun other member => atHand other (List.mem_cons_of_mem _ member)) admitted.2

end

end System

end Diverge
