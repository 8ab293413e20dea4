import Diverge.Proofs.Merge.Meaning

/-!
# A merge touches its receiver only

A merge writes registers and constraints of the receiver, and the bytes of its objects,
some of them in place.  Contents are shared between spaces, so that the bytes could be
those of other states as well.  They are not: what is written in place belongs to the
space of the receiver, and is bound nowhere else.

Whether the merge ends or faults halfway, each step of it is *confined* to the receiver
and its space.  All other states keep their registers, frames and constraints, bind what
they bound, and find there what they found (`Execution.merge_untouched`).
-/

namespace Diverge

open Stateful

/-! ## Heaps -/

namespace Heap

/-- Nothing has changed but a space, and contents that show in no other. -/
structure Confines (space : Nat) (before after : Heap) : Prop where
  owned : after.Owned
  spaceAt_eq : ∀ other ≠ space, after.spaceAt other = before.spaceAt other
  listing_eq : ∀ other ≠ space, after.listing other = before.listing other

section

variable {heap : Heap} {space other : Nat} {object : MemoryObject} {target source : Nat}

theorem Confines.refl
    (owned : heap.Owned) :
    heap.Confines space heap :=
  ⟨owned, fun _ _ => rfl, fun _ _ => rfl⟩

theorem Confines.trans
    ⦃first second third : Heap⦄
    (before : first.Confines space second)
    (after : second.Confines space third) :
    first.Confines space third where
  owned := after.owned
  spaceAt_eq := fun other different =>
    (after.spaceAt_eq other different).trans (before.spaceAt_eq other different)
  listing_eq := fun other different =>
    (after.listing_eq other different).trans (before.listing_eq other different)

/-- Building expressions changes the table only. -/
theorem Owned.confines_build
    {α : Type}
    (owned : heap.Owned)
    (action : Build α) :
    Moves (Confines space) (build action) heap fun _ later =>
      later = { heap with table := later.table } := by
  have stays (table : Table) : heap.Confines space { heap with table } :=
    ⟨owned.withTable table, fun _ _ => rfl, fun _ _ => rfl⟩
  unfold Moves build
  cases action heap.table with
  | ok result table => exact ⟨stays table, rfl⟩
  | error fault table => exact ⟨stays table, not_false⟩

/-- Opening contents for writing shows nowhere. -/
theorem Opened.confines
    {later : Heap}
    (opened : heap.Opened space object target later) :
    heap.Confines space later :=
  ⟨opened.grants.owned, opened.spaceAt_eq, fun other _ => opened.listing_eq other⟩

/-- A byte that is written into granted contents, or none if there is a fault. -/
theorem Grants.confines_writeByte
    (grants : heap.Grants space object target)
    (offset : Int)
    (value : Expr) :
    Moves (Confines space) (onContents target (Contents.writeByte offset value)) heap
      fun _ later => later.Grants space object target := by
  have granted (bytes : List Expr) :
      (heap.setContents target { heap.contentsAt target with bytes }).Grants space object
        target :=
    grants.setContents rfl
  have confines (bytes : List Expr) : heap.Confines space
      (heap.setContents target { heap.contentsAt target with bytes }) := by
    refine ⟨(granted bytes).owned, fun _ _ => rfl, fun other different => ?_⟩
    rw [grants.listing_of_rewrites (grants.rewrites_setContents bytes) other]
    exact if_neg different
  -- a fault leaves the bytes that were there
  have unchanged := confines (heap.contentsAt target).bytes
  unfold Moves onContents
  rw [Contents.writeByte_run]
  by_cases byte : value.width = 8
  · rw [if_pos byte]
    cases Sequence.replace (heap.contentsAt target).bytes offset value with
    | ok bytes => exact ⟨confines bytes, granted bytes⟩
    | error fault => exact ⟨unchanged, not_false⟩
  · rw [if_neg byte]
    exact ⟨unchanged, not_false⟩

/-! ## Merging bytes -/

variable (value : Expr → Expr → Build Expr)

/-- A merged byte is written to contents that the receiver alone holds. -/
theorem Grants.confines_mergeByte
    (grants : heap.Grants space object target)
    (offset : Nat) :
    Moves (Confines space) (Execution.mergeByte value target source offset) heap
      fun _ later => later.Grants space object target := by
  have stays : heap.Confines space heap := Confines.refl grants.owned
  unfold Execution.mergeByte Moves
  rw [get_bind]
  refine Moves.bind Confines.trans (Moves.ofExcept stays fun first _ => ?_)
  unfold Moves
  rw [get_bind]
  refine Moves.bind Confines.trans (Moves.ofExcept stays fun second _ => ?_)
  refine Moves.bind Confines.trans ((grants.owned.confines_build _).mono ?_)
  intro merged middle _ same
  have granted : middle.Grants space object target := by
    rw [same]
    exact grants.withTable _
  exact granted.confines_writeByte offset merged

/-- The same for all bytes of an object. -/
theorem Grants.confines_mergeBytes
    (grants : heap.Grants space object target)
    (offset count : Nat) :
    Moves (Confines space) (Execution.mergeBytes value target source offset count) heap
      fun _ later => later.Grants space object target := by
  induction count generalizing heap offset with
  | zero => exact Moves.pure (Confines.refl grants.owned) grants
  | succ count inductionHypothesis =>
      refine Moves.bind Confines.trans ((grants.confines_mergeByte value offset).mono ?_)
      intro _ middle _ granted
      exact inductionHypothesis granted (offset + 1)

/-- What is merged in place was granted, and what was not granted is copied first. -/
theorem Owned.confines_mergeObject
    (owned : heap.Owned)
    (object : MemoryObject) :
    Moves (Confines space) (Execution.mergeObject value space other object) heap
      fun _ later => later.Owned := by
  have stays : heap.Confines space heap := Confines.refl owned
  unfold Execution.mergeObject Moves
  rw [get_bind]
  change Moves (Confines space) _ heap _
  cases found : heap.find? space object with
  | none => exact Moves.pure stays owned
  | some contents =>
      cases heap.find? other object with
      | none => exact Moves.pure stays owned
      | some source =>
          refine Moves.bind Confines.trans ?_
          by_cases protect : (heap.contentsAt contents).readOnly = true
          · unfold Moves
            rw [writeable_of_readOnly protect]
            exact ⟨stays, not_false⟩
          · obtain ⟨target, opened, ran, opens⟩ :=
              owned.writeable_run (binds_of_find? found) (by simpa using protect)
            unfold Moves
            rw [ran]
            refine ⟨opens.confines, (opens.grants.confines_mergeBytes value 0 _).mono ?_⟩
            exact fun _ _ _ granted => granted.owned

end

end Heap

/-! ## Executions -/

namespace Execution

/-- Nothing has changed but a state, a space, and contents that show in no other. -/
structure Confines (place space : Nat) (before after : Execution) : Prop where
  heap : before.heap.Confines space after.heap
  stateAt_eq : ∀ other ≠ place, after.stateAt other = before.stateAt other

theorem Confines.trans
    {place space : Nat}
    ⦃first second third : Execution⦄
    (before : first.Confines place space second)
    (after : second.Confines place space third) :
    first.Confines place space third where
  heap := before.heap.trans after.heap
  stateAt_eq := fun other different =>
    (after.stateAt_eq other different).trans (before.stateAt_eq other different)

/-- Wherever it starts, a computation changes nothing but a state and its space. -/
def Confined {α : Type} (place space : Nat) (action : ExecutionM α) : Prop :=
  ∀ execution : Execution, execution.heap.Owned →
    Moves (Confines place space) action execution fun _ _ => True

section

variable {α β : Type} {place space : Nat}

theorem Confines.refl
    {execution : Execution}
    (owned : execution.heap.Owned) :
    execution.Confines place space execution :=
  ⟨Heap.Confines.refl owned, fun _ _ => rfl⟩

theorem Confined.pure
    (result : α) :
    Confined place space (pure result) :=
  fun _ owned => Moves.pure (Confines.refl owned) trivial

theorem Confined.throw
    (fault : Fault) :
    Confined place space (throw fault : ExecutionM α) :=
  fun _ owned => Moves.throw (Confines.refl owned) not_false

/-- Confined actions compose. -/
theorem Confined.bind
    {action : ExecutionM α}
    {next : α → ExecutionM β}
    (first : Confined place space action)
    (second : ∀ result, Confined place space (next result)) :
    Confined place space (action >>= next) :=
  fun execution owned => Moves.bind Confines.trans ((first execution owned).mono
    fun result middle confines _ => second result middle confines.heap.owned)

theorem Confined.get :
    Confined place space get :=
  fun _ owned => ⟨Confines.refl owned, trivial⟩

theorem Confined.forM
    {action : α → ExecutionM Unit}
    (elements : List α)
    (each : ∀ element ∈ elements, Confined place space (action element)) :
    Confined place space (elements.forM action) := by
  intro execution owned
  refine (Moves.forM Confines.trans (fun _ => Confines.refl) elements ?_ owned).mono
    fun _ _ _ _ => trivial
  intro element member state ownedThere
  exact (each element member state ownedThere).mono fun _ _ confines _ =>
    confines.heap.owned

/-- An action on memory that is confined to a space is confined as an action on states. -/
theorem confined_onHeap
    {action : HeapM α}
    (confines : ∀ heap : Heap, heap.Owned →
      Moves (Heap.Confines space) action heap fun _ _ => True) :
    Confined place space (onHeap action) := by
  intro execution owned
  have moves := confines execution.heap owned
  unfold Moves at moves
  unfold Moves onHeap
  cases ran : action execution.heap with
  | ok result heap =>
      rw [ran] at moves
      exact ⟨⟨moves.1, fun _ _ => rfl⟩, trivial⟩
  | error fault heap =>
      rw [ran] at moves
      exact ⟨⟨moves.1, fun _ _ => rfl⟩, not_false⟩

theorem confined_build
    (action : Build α) :
    Confined place space (build action) :=
  confined_onHeap fun _ owned => (owned.confines_build action).mono fun _ _ _ _ => trivial

theorem confined_onState
    (change : ExecState → ExecState) :
    Confined place space (onState place change) := by
  intro execution owned
  refine Moves.modify ⟨Heap.Confines.refl owned, fun other different => ?_⟩ trivial
  have found := stateAt_setState execution place (change (execution.stateAt place)) other
  rw [if_neg fun here => different here.1] at found
  exact found

/-- Adding a constraint changes one state, and memory not at all. -/
theorem confined_addConstraint
    (constraint : Expr) :
    Confined place space (addConstraint place constraint) := by
  refine Confined.get.bind fun execution => ?_
  split
  · exact confined_onState _
  · exact (confined_onState _).bind fun _ => Confined.throw _

/-! ## What is told -/

theorem confined_trace
    (options : Options)
    (line : String) :
    Confined place space (trace options line) := by
  unfold trace
  split
  · exact fun _ owned => Moves.modify ⟨Heap.Confines.refl owned, fun _ _ => rfl⟩ trivial
  · exact Confined.pure ()

theorem confined_traceText
    (options : Options)
    (label : String)
    (written : Except Fault String) :
    Confined place space (traceText options label written) := by
  cases written with
  | ok text => exact confined_trace options _
  | error fault => exact Confined.pure ()

theorem confined_traceList
    (options : Options)
    (label : String)
    (expressions : List Expr) :
    Confined place space (traceList options label expressions) :=
  Confined.bind (fun _ owned => Moves.ofExcept (Confines.refl owned) fun _ _ => trivial)
    fun _ => confined_trace options _

theorem confined_traceOverlap
    (options : Options)
    (overlap : Overlap) :
    Confined place space (traceOverlap options overlap) :=
  (confined_traceList _ _ _).bind fun _ => (confined_traceList _ _ _).bind fun _ =>
    confined_traceList _ _ _

/-- Comparing memory only tells what it finds. -/
theorem confined_compareMemory
    (options : Options)
    (left right : Space) :
    Confined place space (compareMemory options left right) := by
  refine (confined_trace _ _).bind fun _ => (confined_traceText _ _ _).bind fun _ =>
    (confined_traceText _ _ _).bind fun _ => ?_
  exact (Confined.forM _ fun line _ => confined_trace options line).bind fun _ =>
    Confined.pure _

theorem confined_traceMerged
    (told : Nat) :
    Confined place space (traceMerged told) :=
  Confined.get.bind fun _ => confined_traceText _ _ _

/-! ## The merge -/

/--
Taking another state in changes the receiver, its space and nothing else, also if it breaks off.
-/
theorem confined_absorb
    (receiver other : ExecState)
    (overlap : Overlap)
    (objects : List MemoryObject) :
    Confined place receiver.space (absorb place receiver other overlap objects) := by
  refine (confined_build _).bind fun guard => (confined_build _).bind fun guardOther => ?_
  refine (confined_build _).bind fun stack => (confined_onState _).bind fun _ => ?_
  refine (confined_onHeap ?_).bind fun _ => (confined_onState _).bind fun _ => ?_
  · intro heap owned
    exact (Moves.forM Heap.Confines.trans (fun _ => Heap.Confines.refl) objects
      (fun object _ _ ownedThere => ownedThere.confines_mergeObject _ object) owned).mono
        fun _ _ _ _ => trivial
  · refine (Confined.forM _ fun constraint _ => confined_addConstraint constraint).bind
      fun _ => ?_
    exact (confined_build _).bind fun either => confined_addConstraint either

/-- A whole merge is confined to its receiver, however it ends. -/
theorem confines_merge
    {execution : Execution}
    (owned : execution.heap.Owned)
    (place otherPlace : Nat) :
    execution.Confines place (execution.stateAt place).space
      (final (merge place otherPlace) execution) := by
  have confined : Moves (Confines place (execution.stateAt place).space)
      (merge place otherPlace) execution fun _ _ => True := by
    unfold merge Moves
    rw [get_bind, get_bind]
    refine Confined.bind (confined_trace _ _) (fun _ => ?_) execution owned
    split
    · refine (confined_traceOverlap _ _).bind fun _ => Confined.get.bind fun compared => ?_
      refine (confined_compareMemory _ _ _).bind fun outcome => ?_
      cases outcome with
      | none => exact Confined.pure false
      | some mutated =>
          exact (confined_absorb _ _ _ mutated).bind fun _ =>
            (confined_traceMerged place).bind fun _ => Confined.pure true
    · exact Confined.pure false
  exact confined.final

end

/--
A state is as it was: its registers, frames and constraints, what its space binds, and the
contents that are found there.
-/
structure Untouched (place : Nat) (before after : Execution) : Prop where
  stateAt_eq : after.stateAt place = before.stateAt place
  spaceAt_eq : after.heap.spaceAt (before.stateAt place).space =
    before.heap.spaceAt (before.stateAt place).space
  listing_eq : after.heap.listing (before.stateAt place).space =
    before.heap.listing (before.stateAt place).space

/--
A merge leaves all states but its receiver untouched, be it that it ends or that it faults
halfway.  If the two states cannot be merged, nothing changes but what is told.
-/
theorem merge_untouched
    {system : System}
    (reached : system.Reachable)
    {place : Nat}
    (present : place < system.execution.states.size)
    (otherPlace : Nat) :
    (∀ another < system.execution.states.size, another ≠ place →
      Untouched another system.execution
        (final (merge place otherPlace) system.execution)) ∧
      ∀ later, merge place otherPlace system.execution = .ok false later →
        system.execution.Tells later := by
  have sound := reached.sound.execution
  constructor
  · intro another isState different
    have confines := confines_merge sound.heap.owned place otherPlace
    have apart := sound.space_ne another isState place present different
    exact ⟨confines.stateAt_eq another different, confines.heap.spaceAt_eq _ apart,
      confines.heap.listing_eq _ apart⟩
  · intro later ran
    exact ((moves_merge sound present otherPlace False.elim).of_ok ran).2.2

end Execution

namespace SharedByte

open ForkedPath (workshop reachable_workshop function object zero five isZero notZero index input)

/--
A state and two forks of it.  The forks share the contents of an object; the state has
written its byte, and owns the contents in which it did.
-/
def system : System :=
  [.create function none {},
    .bind 0 object { object, readOnly := false, owner := 0, bytes := [zero] },
    .fork 0, .fork 0, .constrain 0 isZero, .constrain 1 notZero,
    .writeByte 0 object 0 five].foldl System.act (System.equip {} workshop)

theorem reachable : system.Reachable := by
  refine System.Reachable.foldl_act (System.Reachable.equip reachable_workshop) ?_
    (by decide +kernel)
  have atHand : (System.equip {} workshop).expressions =
    [notZero, isZero, five, zero, input, index] := rfl
  rw [atHand]
  simp [Action.uses]

/-- The kinds of the bytes of the object, as a state finds them. -/
def kinds (execution : Execution) (place : Nat) : Option (List (Option Kind)) :=
  (execution.heap.image? (execution.stateAt place).space object).map
    (·.bytes.map Expr.kind?)

end SharedByte

open Execution SharedByte in
/-- The byte of the receiver becomes a choice, in place; the forks find the byte they shared. -/
theorem merge_untouched_sharedByte :
    ∃ later, merge 0 1 system.execution = .ok true later ∧
      kinds later 0 = some [some .select] ∧
        Untouched 1 system.execution later ∧ Untouched 2 system.execution later := by
  have answered : (match merge 0 1 system.execution with
      | .ok answer later => answer && decide (kinds later 0 = some [some .select])
      | .error _ _ => false) = true := by decide +kernel
  have untouched := (merge_untouched reachable
    (show 0 < system.execution.states.size by decide +kernel) 1).1
  have first := untouched 1 (by decide +kernel) (by decide)
  have second := untouched 2 (by decide +kernel) (by decide)
  unfold final at first second
  cases ran : merge 0 1 system.execution with
  | error fault later =>
      rw [ran] at answered
      exact (Bool.false_ne_true answered).elim
  | ok answer later =>
      rw [ran] at answered first second
      obtain ⟨rfl, isChoice⟩ := Bool.and_eq_true_iff.1 answered
      exact ⟨later, rfl, of_decide_eq_true isChoice, first, second⟩

end Diverge
