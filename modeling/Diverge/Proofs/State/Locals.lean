import Diverge.Proofs.State.Accounts

/-!
# Objects that live as long as a frame

A chronicle is an execution together with what was bound for each state otherwise than by its
frames.  Along permitted deeds the two account for all bindings, so frames that are entered and
left again leave no trace among them, and a state that ends keeps only what no frame listed.
-/

namespace Diverge

open Stateful

/-! ## Runs -/

namespace Execution

/-- The bindings of a state. -/
def bindings (execution : Execution) (place : Nat) : Assoc MemoryObject Nat :=
  (execution.heap.spaceAt (execution.stateAt place).space).bindings

/-- The objects that a state binds. -/
def bound (execution : Execution) (place : Nat) : List MemoryObject :=
  (execution.bindings place).map Prod.fst

/-- Each deed finds its states and is permitted when its turn comes. -/
def permits : Execution → List Deed → Bool
  | _, [] => true
  | execution, deed :: rest =>
      deed.places.all (· < execution.states.size) &&
        deed.effect.isPermitted execution.layout &&
          (execution.perform deed).permits rest

/-- A run is permitted if its first deed is, and the rest after it. -/
theorem permits_cons
    {execution : Execution}
    {deed : Deed}
    {rest : List Deed} :
    execution.permits (deed :: rest) = true ↔
      (∀ place ∈ deed.places, place < execution.states.size) ∧
        deed.effect.isPermitted execution.layout = true ∧
          (execution.perform deed).permits rest = true := by
  simp [permits, and_assoc]

end Execution

/-- An execution, and what is kept for each state besides the objects of its frames. -/
structure Chronicle where
  execution : Execution := {}
  kept : Nat → List MemoryObject := fun _ => []

namespace Chronicle

/-- The chronicle after a deed. -/
def record (chronicle : Chronicle) (deed : Deed) : Chronicle where
  execution := chronicle.execution.perform deed
  kept := deed.effect.kept chronicle.execution.states.size chronicle.kept

/-- The chronicle of deeds from the beginning. -/
def ofDeeds (deeds : List Deed) : Chronicle :=
  deeds.foldl record {}

/-- What is bound is accounted for. -/
def Accounts (chronicle : Chronicle) : Prop :=
  chronicle.execution.layout.Accounts chronicle.kept

variable {chronicle : Chronicle}

theorem accounts_empty :
    Accounts {} where
  space_lt := fun _ inside => absurd inside (Nat.not_lt_zero _)
  space_inj := fun _ inside => absurd inside (Nat.not_lt_zero _)
  unborn := fun _ _ => rfl
  accounted := fun _ inside => absurd inside (Nat.not_lt_zero _)

theorem Accounts.leads_record
    (accounts : chronicle.Accounts)
    {deed : Deed}
    (present : ∀ place ∈ deed.places, place < chronicle.execution.states.size)
    (permitted : deed.effect.isPermitted chronicle.execution.layout = true) :
    deed.effect.Leads chronicle.execution.layout (chronicle.record deed).execution.layout := by
  apply Execution.leads_perform present accounts.space_lt
  intro place object allocates empty
  rw [allocates] at permitted
  exact (of_decide_eq_true permitted).1 (congrArg (List.map Frame.allocas) empty)

/-- One deed keeps everything accounted for. -/
theorem Accounts.record
    (accounts : chronicle.Accounts)
    {deed : Deed}
    (present : ∀ place ∈ deed.places, place < chronicle.execution.states.size)
    (permitted : deed.effect.isPermitted chronicle.execution.layout = true) :
    (chronicle.record deed).Accounts :=
  Layout.Accounts.leads accounts
    (fun place member => present place (Deed.mem_places_of_effect member)) permitted
    (accounts.leads_record present permitted)

/-- So does every permitted run, by induction on its deeds. -/
theorem Accounts.foldl_record
    {deeds : List Deed}
    (accounts : chronicle.Accounts)
    (permitted : chronicle.execution.permits deeds = true) :
    (deeds.foldl Chronicle.record chronicle).Accounts := by
  induction deeds generalizing chronicle with
  | nil => exact accounts
  | cons deed rest inductionHypothesis =>
      obtain ⟨present, allowed, later⟩ := Execution.permits_cons.1 permitted
      exact inductionHypothesis (accounts.record present allowed) later

theorem Accounts.states_le_foldl
    {deeds : List Deed}
    (accounts : chronicle.Accounts)
    (permitted : chronicle.execution.permits deeds = true) :
    chronicle.execution.states.size ≤
      (deeds.foldl Chronicle.record chronicle).execution.states.size := by
  induction deeds generalizing chronicle with
  | nil => exact Nat.le_refl _
  | cons deed rest inductionHypothesis =>
      obtain ⟨present, allowed, later⟩ := Execution.permits_cons.1 permitted
      exact Nat.le_trans ((accounts.leads_record present allowed).states_le allowed)
        (inductionHypothesis (accounts.record present allowed) later)

/-! ## Spans in which frames are entered and left -/

/-- What is kept for a state grows by what is bound for it. -/
theorem Accounts.mem_kept_foldl
    {deeds : List Deed}
    (accounts : chronicle.Accounts)
    (permitted : chronicle.execution.permits deeds = true)
    {place : Nat}
    (isState : place < chronicle.execution.states.size)
    {object : MemoryObject} :
    object ∈ (deeds.foldl Chronicle.record chronicle).kept place ↔
      object ∈ chronicle.kept place ∨ ∃ deed ∈ deeds, deed.effect = .bind place object := by
  induction deeds generalizing chronicle with
  | nil => simp
  | cons deed rest inductionHypothesis =>
      obtain ⟨present, allowed, later⟩ := Execution.permits_cons.1 permitted
      have grows := (accounts.leads_record present allowed).states_le allowed
      rw [List.foldl_cons, inductionHypothesis (accounts.record present allowed) later
        (Nat.lt_of_lt_of_le isState grows)]
      simp only [List.mem_cons, exists_eq_or_imp, ← or_assoc]
      exact or_congr_left (Effect.mem_kept isState)

end Chronicle

namespace Execution

/-- How many frames a state has. -/
def height (execution : Execution) (place : Nat) : Nat :=
  (execution.stateAt place).stack.length

theorem length_layers
    (execution : Execution)
    (place : Nat) :
    (execution.layout.layers place).length = execution.height place :=
  List.length_map _

/--
In the course of some deeds a state does not leave its first frames, gives them nothing, and
in the end it has no others.
-/
def returnsTo (place floor : Nat) : Execution → List Deed → Bool
  | execution, [] => execution.height place = floor
  | execution, deed :: rest =>
      floor ≤ execution.height place &&
        (!deed.effect.allocates place || floor < execution.height place) &&
          (execution.perform deed).returnsTo place floor rest

theorem returnsTo_cons
    {place floor : Nat}
    {execution : Execution}
    {deed : Deed}
    {rest : List Deed} :
    execution.returnsTo place floor (deed :: rest) = true ↔
      floor ≤ execution.height place ∧
        (deed.effect.allocates place = true → floor < execution.height place) ∧
          (execution.perform deed).returnsTo place floor rest = true := by
  simp only [returnsTo, Bool.and_eq_true, Bool.or_eq_true, decide_eq_true_eq, and_assoc,
    Bool.not_eq_true', ← Bool.not_eq_true, ← imp_iff_not_or]

theorem floor_le_of_returnsTo
    {place floor : Nat}
    {execution : Execution}
    {deeds : List Deed}
    (returns : execution.returnsTo place floor deeds = true) :
    floor ≤ execution.height place := by
  cases deeds with
  | nil => exact Nat.le_of_eq (of_decide_eq_true returns).symm
  | cons deed rest => exact (returnsTo_cons.1 returns).1

end Execution

namespace Chronicle

variable {chronicle : Chronicle}

/-- Frames that are entered and left again leave the others as they were. -/
theorem Accounts.layers_foldl
    {deeds : List Deed}
    (accounts : chronicle.Accounts)
    (permitted : chronicle.execution.permits deeds = true)
    {place floor : Nat}
    (isState : place < chronicle.execution.states.size)
    (returns : chronicle.execution.returnsTo place floor deeds = true) :
    (deeds.foldl Chronicle.record chronicle).execution.layout.layers place =
      (chronicle.execution.layout.layers place).take floor := by
  induction deeds generalizing chronicle with
  | nil =>
      have ends : (chronicle.execution.layout.layers place).length = floor :=
        (Execution.length_layers _ _).trans (of_decide_eq_true returns)
      rw [List.foldl_nil, ← ends, List.take_length]
  | cons deed rest inductionHypothesis =>
      obtain ⟨present, allowed, later⟩ := Execution.permits_cons.1 permitted
      obtain ⟨above, higher, returnsLater⟩ := Execution.returnsTo_cons.1 returns
      have leads := accounts.leads_record present allowed
      rw [← Execution.length_layers] at above higher
      have stillAbove := Execution.floor_le_of_returnsTo returnsLater
      rw [← Execution.length_layers] at stillAbove
      have same := leads.take_layers allowed isState above stillAbove higher
      rw [List.foldl_cons, ← same]
      exact inductionHypothesis (accounts.record present allowed) later
        (Nat.lt_of_lt_of_le isState (leads.states_le allowed)) returnsLater

end Chronicle

/-! ## States that end -/

namespace Execution

variable {execution : Execution} {place other : Nat}

/-- What is seen of another state, of its space and of all contents. -/
def bystander (place other space : Nat) (execution : Execution) :
    Nat × ExecState × Space × Array Contents :=
  ((execution.stateAt place).space, execution.stateAt other, execution.heap.spaceAt space,
    execution.heap.contents)

theorem bystander_setState
    (different : other ≠ place)
    (state : ExecState)
    (sameSpace : state.space = (execution.stateAt place).space)
    {heap : Heap}
    {space : Nat}
    (sameBindings : heap.spaceAt space = execution.heap.spaceAt space)
    (sameContents : heap.contents = execution.heap.contents) :
    bystander place other space { execution.setState place state with heap } =
      bystander place other space execution := by
  have sameState : (execution.setState place state).stateAt other = execution.stateAt other := by
    rw [stateAt_setState, if_neg fun here => different here.1]
  unfold bystander
  congr 1
  · exact (unmoved_setState sameSpace).field_eq place
  · rw [sameBindings, sameContents]
    exact congrArg (·, _) sameState

/-- Leaving a frame of one state changes nothing that another state sees. -/
theorem stays_popFrame
    (different : other ≠ place)
    {space : Nat}
    (apart : (execution.stateAt place).space ≠ space) :
    Stays (bystander place other space) (popFrame place) execution := by
  unfold Stays final
  cases found : (execution.stateAt place).stack.getLast? with
  | none => rw [popFrame_of_empty found]
  | some frame =>
      obtain ⟨sameBindings, sameContents⟩ :=
        Heap.unboundAll_elsewhere execution.heap apart.symm frame.allocas
      rw [popFrame_run found]
      exact bystander_setState different
        { execution.stateAt place with stack := (execution.stateAt place).stack.dropLast } rfl
        sameBindings sameContents

/-- A state that ends leaves every other state, its bindings and all contents. -/
theorem stays_terminate
    (different : other ≠ place)
    {space : Nat}
    (apart : (execution.stateAt place).space ≠ space) :
    Stays (bystander place other space) (terminate place) execution := by
  apply Stays.get_bind
  refine Stays.bind (Stays.forM _ ?_) ?_
  · exact fun _ _ _ _ => Stays.modify rfl
  intro _ left _ sameLeft
  refine Stays.bind (Stays.modify ?_) ?_
  · exact bystander_setState different { left.stateAt place with openMerges := [] } rfl rfl rfl
  intro _ emptied _ sameEmptied
  have same : (emptied.stateAt place).space = (execution.stateAt place).space :=
    congrArg Prod.fst (sameEmptied.trans sameLeft)
  refine Stays.bind (Stays.forM _ ?_) ?_
  · intro _ _ state sameState
    have sameThere : (state.stateAt place).space = (execution.stateAt place).space :=
      (congrArg Prod.fst sameState).trans same
    exact stays_popFrame different (sameThere ▸ apart)
  · intro _ ended _ _
    exact Stays.modify rfl

theorem permits_append
    {earlier later : List Deed} :
    execution.permits (earlier ++ later) = true ↔
      execution.permits earlier = true ∧
        (earlier.foldl perform execution).permits later = true := by
  induction earlier generalizing execution with
  | nil => simp [permits]
  | cons deed rest inductionHypothesis =>
      rw [List.cons_append, permits_cons, permits_cons, inductionHypothesis, List.foldl_cons]
      simp only [and_assoc]

end Execution

namespace Chronicle

theorem execution_foldl
    (chronicle : Chronicle)
    (deeds : List Deed) :
    (deeds.foldl record chronicle).execution =
      deeds.foldl Execution.perform chronicle.execution := by
  induction deeds generalizing chronicle with
  | nil => rfl
  | cons deed rest inductionHypothesis => exact inductionHypothesis (chronicle.record deed)

variable {chronicle : Chronicle} {place : Nat}

/-- What a state binds it kept from outside its frames, or a live frame lists it. -/
theorem Accounts.mem_bound
    (accounts : chronicle.Accounts)
    (isState : place < chronicle.execution.states.size)
    (object : MemoryObject) :
    object ∈ chronicle.execution.bound place ↔
      object ∈ chronicle.kept place ∨
        ∃ frame ∈ (chronicle.execution.stateAt place).stack, object ∈ frame.allocas := by
  refine ((Layout.Accounts.accounted accounts place isState).mem_iff object).trans ?_
  show _ ∨ object ∈ ((chronicle.execution.stateAt place).stack.map Frame.allocas).flatten ↔ _
  rw [List.mem_flatten]
  simp only [List.mem_map, exists_exists_and_eq_and]

/-- Frames that are entered and left again leave the bindings as they were. -/
theorem Accounts.mem_bound_returned
    (accounts : chronicle.Accounts)
    {span : List Deed}
    (permitted : chronicle.execution.permits span = true)
    (isState : place < chronicle.execution.states.size)
    (returns : chronicle.execution.returnsTo place (chronicle.execution.height place) span = true)
    (object : MemoryObject) :
    object ∈ (span.foldl Chronicle.record chronicle).execution.bound place ↔
      object ∈ chronicle.execution.bound place ∨
        ∃ contents, .happen (.act (.bind place object contents)) ∈ span := by
  have later := accounts.foldl_record permitted
  have isStateLater := Nat.lt_of_lt_of_le isState (accounts.states_le_foldl permitted)
  have layers := accounts.layers_foldl permitted isState returns
  rw [← Execution.length_layers, List.take_length] at layers
  have binds : (∃ deed ∈ span, deed.effect = .bind place object) ↔
      ∃ contents, .happen (.act (.bind place object contents)) ∈ span := by
    simp only [Deed.effect_eq_bind_iff]
    constructor
    · rintro ⟨_, member, contents, rfl⟩
      exact ⟨contents, member⟩
    · rintro ⟨contents, member⟩
      exact ⟨_, member, contents, rfl⟩
  have before : object ∈ chronicle.execution.bound place ↔ _ :=
    (Layout.Accounts.accounted accounts place isState).mem_iff object
  have after : object ∈ (span.foldl Chronicle.record chronicle).execution.bound place ↔ _ :=
    (Layout.Accounts.accounted later place isStateLater).mem_iff object
  rw [after, before, layers, accounts.mem_kept_foldl permitted isState, binds, or_right_comm]

/-- A state that ends keeps what was bound for it, and the others keep what they bind. -/
theorem Accounts.terminate
    (accounts : chronicle.Accounts)
    (isState : place < chronicle.execution.states.size) :
    ((chronicle.record (.happen (.terminate place))).execution.stateAt place).stack = [] ∧
      (∀ object, object ∈ (chronicle.record (.happen (.terminate place))).execution.bound place ↔
        object ∈ chronicle.kept place) ∧
      ∀ other < chronicle.execution.states.size, other ≠ place →
        (chronicle.record (.happen (.terminate place))).execution.bindings other =
          chronicle.execution.bindings other := by
  have present : ∀ other ∈ [place], other < chronicle.execution.states.size := by
    simpa using isState
  have leads : (Effect.terminate place).Leads chronicle.execution.layout
      (chronicle.record (.happen (.terminate place))).execution.layout :=
    accounts.leads_record present rfl
  have later : (chronicle.record (.happen (.terminate place))).Accounts :=
    accounts.record present rfl
  have height := congrArg (fun layout => (Layout.layers layout place).length) leads
  rw [Layout.length_layers_iterate_pop, Nat.sub_self, Execution.length_layers] at height
  have empty := List.eq_nil_of_length_eq_zero height
  have isStateLater := Nat.lt_of_lt_of_le isState (leads.states_le rfl)
  refine ⟨empty, ?_, ?_⟩
  · intro object
    rw [later.mem_bound isStateLater, empty]
    simp only [List.not_mem_nil, false_and, exists_false, or_false]
    exact Iff.rfl
  · intro other isOther different
    have apart : (chronicle.execution.stateAt place).space ≠
        (chronicle.execution.stateAt other).space := by
      intro same
      exact different (Layout.Accounts.space_inj accounts place isState other isOther same).symm
    have seen := Execution.stays_terminate different apart
    have sameState : ((chronicle.record (.happen (.terminate place))).execution.stateAt other) =
        chronicle.execution.stateAt other :=
      congrArg (·.2.1) seen
    have sameSpace : (chronicle.record (.happen (.terminate place))).execution.heap.spaceAt
        (chronicle.execution.stateAt other).space =
          chronicle.execution.heap.spaceAt (chronicle.execution.stateAt other).space :=
      congrArg (·.2.2.1) seen
    unfold Execution.bindings
    rw [sameState, sameSpace]

/--
Whatever is done, a state binds exactly the objects of its frames and what was bound for it
otherwise.  So frames that are entered and left again leave its bindings as they were, and a
state that ends binds what was bound for it otherwise only, while the other states bind what
they did.
-/
theorem mem_bound_iff
    {deeds : List Deed}
    (permitted : Execution.permits {} deeds = true) :
    (∀ place < (ofDeeds deeds).execution.states.size, ∀ object,
      object ∈ (ofDeeds deeds).execution.bound place ↔
        object ∈ (ofDeeds deeds).kept place ∨
          ∃ frame ∈ ((ofDeeds deeds).execution.stateAt place).stack, object ∈ frame.allocas) ∧
    (∀ earlier span place, deeds = earlier ++ span →
      place < (ofDeeds earlier).execution.states.size →
        (ofDeeds earlier).execution.returnsTo place
          ((ofDeeds earlier).execution.height place) span = true →
            ∀ object, object ∈ (ofDeeds deeds).execution.bound place ↔
              object ∈ (ofDeeds earlier).execution.bound place ∨
                ∃ contents, .happen (.act (.bind place object contents)) ∈ span) ∧
    ∀ earlier place, deeds = earlier ++ [.happen (.terminate place)] →
      ((ofDeeds deeds).execution.stateAt place).stack = [] ∧
        (∀ object, object ∈ (ofDeeds deeds).execution.bound place ↔
          object ∈ (ofDeeds deeds).kept place) ∧
        ∀ other < (ofDeeds earlier).execution.states.size, other ≠ place →
          (ofDeeds deeds).execution.bindings other =
            (ofDeeds earlier).execution.bindings other := by
  refine ⟨?_, ?_, ?_⟩
  · exact fun place isState => (accounts_empty.foldl_record permitted).mem_bound isState
  · rintro earlier span place rfl isState returns
    obtain ⟨permittedEarlier, permittedSpan⟩ := Execution.permits_append.1 permitted
    rw [← execution_foldl {}] at permittedSpan
    rw [ofDeeds, List.foldl_append]
    exact (accounts_empty.foldl_record permittedEarlier).mem_bound_returned permittedSpan isState
      returns
  · rintro earlier place rfl
    obtain ⟨permittedEarlier, permittedEnd⟩ := Execution.permits_append.1 permitted
    rw [← execution_foldl {}] at permittedEnd
    have isState := (Execution.permits_cons.1 permittedEnd).1 place List.mem_cons_self
    rw [ofDeeds, List.foldl_append]
    exact (accounts_empty.foldl_record permittedEarlier).terminate isState

end Chronicle

namespace LocalObjects

open RepeatedOpening (function)

def byte (value : Int) : Expr :=
  .const { id := value.toNat, width := 8, multi := false } value

def object (key : Nat) : MemoryObject where
  key := key
  number := key
  address := 16 * key
  size := 1
  name := "object"
  allocSite := none
  isLocal := true

def contents (key : Nat) : Contents where
  object := object key
  readOnly := false
  owner := 0
  bytes := [byte 1]

/--
A state allocates an object and is forked.  The fork writes the object, and is merged into the
state, which is given another object.
-/
def merged : List Deed :=
  [.happen (.act (.create function none {})), .happen (.act (.enter 0 none function)),
    .allocate 0 (object 1) (contents 1), .happen (.act (.fork 0)),
    .happen (.act (.writeByte 1 (object 1) 0 (byte 2))), .happen (.act (.merge 0 1)),
    .happen (.act (.bind 0 (object 2) (contents 2)))]

/-- A function is entered, allocates an object in which it writes, and is left. -/
def call : List Deed :=
  [.happen (.act (.enter 0 none function)), .allocate 0 (object 3) (contents 3),
    .happen (.act (.writeByte 0 (object 3) 0 (byte 2))), .happen (.act (.leave 0))]

/-- What the two states bind after some deeds. -/
def bound (deeds : List Deed) : List (List MemoryObject) :=
  [0, 1].map (Chronicle.ofDeeds deeds).execution.bound

end LocalObjects

open Chronicle LocalObjects in
/-- The call leaves what the state binds; at its end the state keeps what it was given. -/
theorem mem_bound_iff_merged :
    LocalObjects.bound merged = [[object 1, object 2], [object 1]] ∧
      (∀ other, other ∈ (ofDeeds (merged ++ call)).execution.bound 0 ↔
        other ∈ (ofDeeds merged).execution.bound 0) ∧
      (∀ place < (ofDeeds (merged ++ call)).execution.states.size, ∀ other,
        other ∈ (ofDeeds (merged ++ call)).execution.bound place ↔
          other ∈ (ofDeeds (merged ++ call)).kept place ∨
            ∃ frame ∈ ((ofDeeds (merged ++ call)).execution.stateAt place).stack,
              other ∈ frame.allocas) ∧
      ((ofDeeds ((merged ++ call) ++ [.happen (.terminate 0)])).execution.stateAt 0).stack = [] ∧
      LocalObjects.bound ((merged ++ call) ++ [.happen (.terminate 0)]) =
        [[object 2], [object 1]] := by
  have permitted : Execution.permits {} (merged ++ call) = true := by decide +kernel
  have permittedEnd :
      Execution.permits {} ((merged ++ call) ++ [.happen (.terminate 0)]) = true := by
    decide +kernel
  obtain ⟨exact, balanced, _⟩ := mem_bound_iff permitted
  obtain ⟨_, _, ends⟩ := mem_bound_iff permittedEnd
  have returned := balanced merged call 0 rfl (by decide +kernel) (by decide +kernel)
  have nothing (other : MemoryObject) :
      ¬ ∃ contents, Deed.happen (.act (.bind 0 other contents)) ∈ call := by
    simp [call]
  refine ⟨by decide +kernel, fun other => ?_, exact, (ends _ 0 rfl).1, by decide +kernel⟩
  rw [returned other, or_iff_left (nothing other)]

end Diverge
