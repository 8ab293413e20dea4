import Diverge.Proofs.State.Soundness

/-!
# Operations on states keep executions sound

States are created and forked, enter and leave functions, define registers and take
constraints.  None of this makes a sound execution unsound, whether it ends with a
result or with a fault.
-/

namespace Diverge

open Stateful

namespace Execution

section

variable {histories : List Updates} {execution : Execution}

/-! ## What is told, and who waits -/

theorem Sound.withLog
    (sound : execution.Sound histories)
    (log : List String) :
    execution.Evolves histories { execution with log } :=
  ⟨⟨sound.heap, sound.states, sound.space_lt, sound.space_ne⟩, Table.Grows.refl _⟩

theorem Sound.withRendezvous
    (sound : execution.Sound histories)
    (rendezvous : Array (List Nat)) :
    execution.Evolves histories { execution with rendezvous } :=
  ⟨⟨sound.heap, sound.states, sound.space_lt, sound.space_ne⟩, Table.Grows.refl _⟩

theorem moves_tell
    (sound : execution.Sound histories)
    (line : String) :
    Moves (Evolves histories) (tell line) execution fun _ _ => True :=
  Moves.modify (sound.withLog _) trivial

theorem moves_onWaiting
    (sound : execution.Sound histories)
    (meeting : Nat)
    (change : List Nat → List Nat) :
    Moves (Evolves histories) (onWaiting meeting change) execution fun _ _ => True :=
  Moves.modify (sound.withRendezvous _) trivial

/-! ## Constraints -/

/-- A constraint that can be added is added to one state, which is all that changes. -/
theorem moves_addConstraint
    (sound : execution.Sound histories)
    {place : Nat}
    {constraint : Expr}
    {safe : Prop}
    (registered : constraint.Registered histories execution.heap.table)
    (possible : safe → constraint.IsPossible) :
    Moves (Evolves histories) (addConstraint place constraint) execution
      (fun _ later =>
        ∃ set, ConstraintSet.add constraint (execution.stateAt place).constraints =
            .ok () set ∧
          later = execution.setState place
            { execution.stateAt place with constraints := set }) safe := by
  have moves := ConstraintSet.add_moves constraint possible
    (execution.stateAt place).constraints
  have soundState := sound.states place
  have changed {set : ConstraintSet}
      (gains : ConstraintSet.Gains constraint.conjuncts
        (execution.stateAt place).constraints set) :
      execution.Evolves histories (execution.setState place
        { execution.stateAt place with constraints := set }) :=
    sound.setState ⟨soundState.registers,
      gains.registered soundState.constraints registered,
      gains.flat soundState.flat registered.proper⟩ rfl
  unfold addConstraint onConstraints
  unfold Moves at moves ⊢
  rw [get_bind]
  cases ran : ConstraintSet.add constraint (execution.stateAt place).constraints with
  | ok _ set =>
      rw [ran] at moves
      exact ⟨changed moves.1, set, rfl, rfl⟩
  | error fault set =>
      rw [ran] at moves
      exact ⟨changed moves.1, moves.2⟩

/-! ## Frames and registers -/

/-- The registers of a frame that is entered are empty. -/
theorem Frame.enter_locals
    {caller : Option Instruction}
    {function : Function}
    {frame : Frame}
    (entered : Frame.enter caller function = .ok frame)
    (value : Expr) :
    some value ∉ frame.locals := by
  unfold Frame.enter at entered
  obtain ⟨count, _, ended⟩ := except_bind_eq_ok.1 entered
  cases ended
  simp [List.mem_replicate]

/-- Entering a function keeps the execution sound. -/
theorem moves_pushFrame
    (sound : execution.Sound histories)
    (place : Nat)
    (caller : Option Instruction)
    (function : Function) :
    Moves (Evolves histories) (pushFrame place caller function) execution
      fun _ _ => True := by
  refine Moves.bind Evolves.trans
    (Moves.ofExcept (Evolves.refl sound) fun frame entered => ?_)
  have soundState := sound.states place
  refine (moves_onState sound ⟨?_, soundState.constraints, soundState.flat⟩ rfl).mono
    fun _ _ _ _ => trivial
  intro other member value inside
  rcases List.mem_append.1 member with old | new
  · exact soundState.registers other old value inside
  · rw [List.mem_singleton.1 new] at inside
    exact (Frame.enter_locals entered value inside).elim

/-- Changing a frame keeps the execution sound if its registers hold what is registered. -/
theorem moves_onFrame
    (sound : execution.Sound histories)
    {place : Nat}
    {index : Int}
    {change : Frame → Except Fault Frame}
    (keeps : ∀ frame ∈ (execution.stateAt place).stack, ∀ changed,
      change frame = .ok changed → ∀ value, some value ∈ changed.locals →
        value.Registered histories execution.heap.table) :
    Moves (Evolves histories) (onFrame place index change) execution fun _ _ => True := by
  have stays := Evolves.refl sound
  have soundState := sound.states place
  unfold onFrame Moves
  rw [get_bind]
  refine Moves.bind Evolves.trans (Moves.ofExcept stays fun frame found => ?_)
  refine Moves.bind Evolves.trans (Moves.ofExcept stays fun changed ran => ?_)
  refine (moves_onState sound ⟨?_, soundState.constraints, soundState.flat⟩ rfl).mono
    fun _ _ _ _ => trivial
  intro other member value inside
  cases set : Sequence.set? (execution.stateAt place).stack index changed with
  | none =>
      rw [set] at member
      exact soundState.registers other member value inside
  | some stack =>
      rw [set] at member
      rcases Sequence.mem_of_set? set member with old | rfl
      · exact soundState.registers other old value inside
      · exact keeps frame (Sequence.mem_of_fetch found) other ran value inside

theorem moves_setLocal
    (sound : execution.Sound histories)
    (place : Nat)
    (index register : Int)
    {value : Option Expr}
    (registered : ∀ expression ∈ value,
      expression.Registered histories execution.heap.table) :
    Moves (Evolves histories) (setLocal place index register value) execution
      fun _ _ => True := by
  refine moves_onFrame sound fun frame member changed ran other inside => ?_
  obtain ⟨locals, replaced, ended⟩ := except_bind_eq_ok.1 ran
  cases ended
  rcases Sequence.mem_of_replace replaced inside with old | new
  · exact (sound.states place).registers frame member other old
  · exact registered other new.symm

/-- Leaving a frame keeps the execution sound. -/
theorem moves_popFrame
    (sound : execution.Sound histories)
    (place : Nat) :
    Moves (Evolves histories) (popFrame place) execution fun _ _ => True := by
  have soundState := sound.states place
  unfold popFrame Moves
  rw [get_bind]
  change Moves (Evolves histories) _ execution fun _ _ => True
  cases (execution.stateAt place).stack.getLast? with
  | none => exact Moves.throw (Evolves.refl sound) not_false
  | some frame =>
      refine Moves.bind Evolves.trans
        ((moves_onState sound ⟨?_, soundState.constraints, soundState.flat⟩ rfl).mono ?_)
      · intro other member
        exact soundState.registers other (List.mem_of_mem_dropLast member)
      · intro _ middle evolves _
        have unbinds : Moves (Heap.Evolves histories)
            (frame.allocas.forM (Heap.unbind (execution.stateAt place).space)) middle.heap
            fun _ heap => heap.Sound histories := by
          refine Moves.forM Heap.Evolves.trans (fun _ => Heap.Evolves.refl) _ ?_
            evolves.sound.heap
          intro object _ heap soundHeap
          exact ⟨soundHeap.unbound _ object, (soundHeap.unbound _ object).sound⟩
        exact (moves_onHeap evolves.sound unbinds).mono fun _ _ _ _ => trivial

theorem moves_addSymbolic
    (sound : execution.Sound histories)
    (place : Nat)
    (object : MemoryObject)
    (array : ArrayDecl) :
    Moves (Evolves histories) (addSymbolic place object array) execution
      fun _ _ => True := by
  have soundState := sound.states place
  exact (moves_onState sound
    ⟨soundState.registers, soundState.constraints, soundState.flat⟩ rfl).mono
    fun _ _ _ _ => trivial

/-! ## New states -/

/-- A space that was just made belongs to no state yet. -/
theorem Sound.space_ne_new
    (sound : execution.Sound histories)
    {later : Execution}
    (same : later = { execution with heap := later.heap }) :
    ∀ place < later.states.size,
      (later.stateAt place).space ≠ execution.heap.spaces.size := by
  rw [same]
  intro place below
  exact Nat.ne_of_lt (sound.space_lt place below)

/-- A new state keeps the execution sound. -/
theorem moves_newState
    (sound : execution.Sound histories)
    (function : Function)
    (patch : Option Int)
    (options : Options) :
    Moves (Evolves histories) (newState function patch options) execution
      fun _ _ => True := by
  unfold newState
  cases function.instructions.head? with
  | none => exact Moves.throw (Evolves.refl sound) not_false
  | some first =>
      refine Moves.bind Evolves.trans
        ((moves_onHeap sound (Heap.moves_newSpace sound.heap)).mono ?_)
      rintro space middle evolves ⟨⟨rfl, size⟩, same⟩
      unfold Moves
      rw [get_bind]
      have soundNew : ExecState.Sound histories middle.heap.table
          { options, patch, pc := some first, prevPc := some first
            stack := [], depth := 0, space := execution.heap.spaces.size
            constraints := {}, covered := [], symbolics := [], preferences := []
            arrayNames := [], openMerges := [], unwinding := none, coveredNew := false
            info := [] } :=
        ⟨fun _ member => (nomatch member), fun _ member => (nomatch member),
          fun _ member => (nomatch member)⟩
      have pushed := evolves.sound.pushState soundNew
        (by rw [size]; exact Nat.lt_succ_self _) (sound.space_ne_new same)
      refine Moves.bind Evolves.trans (Moves.modify pushed ?_)
      refine Moves.bind Evolves.trans ((moves_pushFrame pushed.sound _ _ _).mono ?_)
      intro _ entered evolvesToo _
      exact Moves.pure (Evolves.refl evolvesToo.sound) trivial

/-- A fork shares what the forked state holds, in a space of its own. -/
theorem moves_fork
    (sound : execution.Sound histories)
    (place : Nat) :
    Moves (Evolves histories) (fork place) execution fun _ _ => True := by
  have soundState := sound.states place
  refine Moves.bind Evolves.trans ((moves_onState sound
    ⟨soundState.registers, soundState.constraints, soundState.flat⟩ rfl).mono ?_)
  intro _ deeper evolves _
  unfold Moves
  rw [get_bind]
  refine Moves.bind Evolves.trans
    ((moves_onHeap evolves.sound (Heap.moves_copySpace evolves.sound.heap _)).mono ?_)
  rintro space middle evolvesToo ⟨⟨rfl, size⟩, same⟩
  have soundParent := (evolves.sound.states place).grow evolvesToo.grows
  have soundChild : ExecState.Sound histories middle.heap.table
      { deeper.stateAt place with
        space := deeper.heap.spaces.size, covered := [], coveredNew := false
        unwinding := (deeper.stateAt place).unwinding.map Unwinding.inherit } :=
    ⟨soundParent.registers, soundParent.constraints, soundParent.flat⟩
  have pushed := evolvesToo.sound.pushState soundChild
    (by rw [size]; exact Nat.lt_succ_self _) (evolves.sound.space_ne_new same)
  unfold Moves
  rw [get_bind]
  refine Moves.bind Evolves.trans (Moves.modify pushed ?_)
  refine Moves.bind Evolves.trans ((Moves.forM Evolves.trans
    (fun _ => Evolves.refl) _ ?_ pushed.sound).mono ?_)
  · intro meeting _ state soundThere
    exact (moves_onWaiting soundThere meeting _).mono fun _ _ evolvesThere _ =>
      evolvesThere.sound
  · intro _ waited _ soundWaited
    refine Moves.bind Evolves.trans ((moves_tell soundWaited _).mono ?_)
    intro _ told evolvesTold _
    exact Moves.pure (Evolves.refl evolvesTold.sound) trivial

end

end Execution

end Diverge
