import Mathlib.Data.List.Count
import Mathlib.Logic.Function.Iterate
import Diverge.Proofs.State.Course

/-!
# Who waits where

That a state has opened a rendezvous is written down twice: in the list of the state and
in the list of the rendezvous, once for each time it was opened.  The two always agree
(`Execution.count_waiting`), although forks copy the one list and must extend the others,
a state that ends leaves them one by one, and a registration may be released late or
twice.  A state that has ended and opened nothing since waits nowhere.
-/

namespace Diverge

open Stateful

namespace Execution

/-- A state waits at a rendezvous as often as it has opened it and not closed it. -/
def Balanced (execution : Execution) : Prop :=
  ∀ place meeting,
    (execution.waiting meeting).count place = (execution.stateAt place).openMerges.count meeting

section

variable {execution : Execution}

/-! ## Rendezvous -/

/-- The execution with other states waiting at a rendezvous. -/
def setWaiting (execution : Execution) (meeting : Nat) (places : List Nat) : Execution :=
  { execution with rendezvous := execution.rendezvous.setIfInBounds meeting places }

theorem waiting_setWaiting
    (execution : Execution)
    (meeting : Nat)
    (places : List Nat)
    (other : Nat) :
    (execution.setWaiting meeting places).waiting other =
      if other = meeting ∧ meeting < execution.rendezvous.size then places
      else execution.waiting other :=
  getD_setIfInBounds _ _ _ _ _

theorem waiting_of_size_le
    {meeting : Nat}
    (outside : execution.rendezvous.size ≤ meeting) :
    execution.waiting meeting = [] := by
  simp [waiting, outside]

theorem stateAt_of_size_le
    {place : Nat}
    (outside : execution.states.size ≤ place) :
    execution.stateAt place = default := by
  simp [stateAt, outside]

theorem lt_size_of_mem_openMerges
    {place meeting : Nat}
    (isOpen : meeting ∈ (execution.stateAt place).openMerges) :
    place < execution.states.size := by
  by_contra outside
  rw [stateAt_of_size_le (Nat.le_of_not_lt outside)] at isOpen
  exact List.not_mem_nil isOpen

/-- An open meeting is one that there is. -/
theorem Balanced.lt_size
    (balanced : execution.Balanced)
    {place meeting : Nat}
    (isOpen : meeting ∈ (execution.stateAt place).openMerges) :
    meeting < execution.rendezvous.size := by
  by_contra outside
  have waits := balanced place meeting
  rw [waiting_of_size_le (Nat.le_of_not_lt outside), List.count_nil] at waits
  exact List.count_eq_zero.1 waits.symm isOpen

/-- Some rendezvous are changed one after another. -/
theorem forM_onWaiting
    (change : List Nat → List Nat)
    (meetings : List Nat)
    (execution : Execution) :
    ∃ later,
      (meetings.forM fun meeting => onWaiting meeting change) execution = .ok () later ∧
        later = { execution with rendezvous := later.rendezvous } ∧
          later.rendezvous.size = execution.rendezvous.size ∧
            ∀ meeting < execution.rendezvous.size,
              later.waiting meeting =
                change^[meetings.count meeting] (execution.waiting meeting) := by
  induction meetings generalizing execution with
  | nil => exact ⟨execution, rfl, rfl, rfl, fun _ _ => rfl⟩
  | cons first rest inductionHypothesis =>
      obtain ⟨later, ran, same, size, waiting⟩ := inductionHypothesis
        (execution.setWaiting first (change (execution.waiting first)))
      have sizeFirst :
          (execution.setWaiting first (change (execution.waiting first))).rendezvous.size =
            execution.rendezvous.size :=
        Array.size_setIfInBounds
      refine ⟨later, ran, same, size.trans sizeFirst, fun meeting inside => ?_⟩
      rw [waiting meeting (by rw [sizeFirst]; exact inside), waiting_setWaiting,
        List.count_cons]
      by_cases here : first = meeting
      · subst here
        simp [inside]
      · simp [here, Ne.symm here]

/-- Registering a state a number of times adds that number to its count. -/
theorem count_iterate_append
    (place other count : Nat)
    (places : List Nat) :
    ((· ++ [place])^[count] places).count other =
      places.count other + if other = place then count else 0 := by
  induction count with
  | zero => simp
  | succ count inductionHypothesis =>
      rw [Function.iterate_succ_apply', List.count_append, inductionHypothesis,
        List.count_singleton]
      grind

/-- Taking it off as often takes that number away. -/
theorem count_iterate_erase
    (place other count : Nat)
    (places : List Nat) :
    ((·.erase place)^[count] places).count other =
      places.count other - if other = place then count else 0 := by
  induction count with
  | zero => simp
  | succ count inductionHypothesis =>
      rw [Function.iterate_succ_apply', List.count_erase, inductionHypothesis]
      grind

/-! ## Forks and ends -/

/-- A state was forked: the new one has opened what the other has, and waits there. -/
structure Forked (place : Nat) (before after : Execution) : Prop where
  size_lt : before.states.size < after.states.size
  openMerges_eq : ∀ other, (after.stateAt other).openMerges =
    if other = before.states.size then (before.stateAt place).openMerges
    else (before.stateAt other).openMerges
  size_eq : after.rendezvous.size = before.rendezvous.size
  waiting_eq : ∀ meeting < before.rendezvous.size,
    after.waiting meeting =
      (· ++ [before.states.size])^[(before.stateAt place).openMerges.count meeting]
        (before.waiting meeting)

/-- A state has ended: it has nothing open, and has left where it waited. -/
structure Ended (place : Nat) (before after : Execution) : Prop where
  size_le : before.states.size ≤ after.states.size
  openMerges_eq : ∀ other, (after.stateAt other).openMerges =
    if other = place then [] else (before.stateAt other).openMerges
  size_eq : after.rendezvous.size = before.rendezvous.size
  waiting_eq : ∀ meeting < before.rendezvous.size,
    after.waiting meeting =
      (·.erase place)^[(before.stateAt place).openMerges.count meeting]
        (before.waiting meeting)

/-- A fork registers the child wherever the parent is registered, as often. -/
theorem forked_fork
    (execution : Execution)
    (place : Nat) :
    Forked place execution (final (fork place) execution) := by
  let deeper := execution.setState place
    { execution.stateAt place with depth := (execution.stateAt place).depth + 1 }
  have unmoved : execution.Unmoved ExecState.openMerges deeper := unmoved_setState rfl
  let parent := deeper.stateAt place
  let child : ExecState :=
    { parent with
      space := deeper.heap.spaces.size, covered := [], coveredNew := false
      unwinding := parent.unwinding.map Unwinding.inherit }
  let pushed := pushState { deeper with heap := deeper.heap.copied parent.space } child
  have newPlace : deeper.states.size = execution.states.size := size_states_setState _ _ _
  obtain ⟨waited, ran, same, size, waits⟩ :=
    forM_onWaiting (· ++ [deeper.states.size]) parent.openMerges pushed
  let told : ExecutionM Nat := do
    tell ("forked state " ++ toString (place + 1) ++ " into " ++
      toString (deeper.states.size + 1) ++ " at depth " ++ toString parent.depth)
    pure deeper.states.size
  have leaves : Leaves ExecState.openMerges told := (leaves_tell _).bind fun _ => Leaves.pure _
  have unmovedToo : waited.Unmoved ExecState.openMerges (final (fork place) execution) :=
    leaves.unmoved_final (bind_of_ok ran)
  constructor
  · refine Nat.lt_of_lt_of_le ?_ unmovedToo.size_le
    rw [same, ← newPlace]
    exact Nat.lt_of_lt_of_eq (Nat.lt_succ_self _) (Array.size_push ..).symm
  · intro other
    rw [unmovedToo.field_eq, same]
    change (pushed.stateAt other).openMerges = _
    rw [stateAt_pushState]
    change (if other = deeper.states.size then child else deeper.stateAt other).openMerges = _
    rw [newPlace]
    split
    · exact unmoved.field_eq place
    · exact unmoved.field_eq other
  · rw [unmovedToo.rendezvous_eq]
    exact size
  · intro meeting inside
    have waitsThere := waits meeting inside
    rw [newPlace, show parent.openMerges = _ from unmoved.field_eq place] at waitsThere
    unfold waiting
    rw [unmovedToo.rendezvous_eq]
    exact waitsThere

theorem openMerges_emptied
    (execution : Execution)
    (place other : Nat) :
    ((execution.setState place { execution.stateAt place with openMerges := [] }).stateAt
      other).openMerges = if other = place then [] else (execution.stateAt other).openMerges := by
  rw [stateAt_setState]
  by_cases here : other = place
  · subst here
    rw [if_pos rfl]
    split
    next => rfl
    next absent =>
        rw [stateAt_of_size_le (Nat.le_of_not_lt fun inside => absent ⟨rfl, inside⟩)]
        rfl
  · rw [if_neg here, if_neg fun both => here both.1]

/-- A state that ends is taken off all its meetings. -/
theorem ended_terminate
    (execution : Execution)
    (place : Nat) :
    Ended place execution (final (terminate place) execution) := by
  obtain ⟨left, ran, same, size, waits⟩ :=
    forM_onWaiting (·.erase place) (execution.stateAt place).openMerges execution
  have states (other : Nat) : left.stateAt other = execution.stateAt other := by
    rw [same]
    rfl
  let told : ExecutionM Unit := do
    (execution.stateAt place).stack.forM fun _ => popFrame place
    tell ("terminated state " ++ toString (place + 1))
  have leaves : Leaves ExecState.openMerges told :=
    (Leaves.forM _ fun _ => leaves_popFrame (fun _ _ => rfl) place).bind fun _ => leaves_tell _
  have unmoved : (left.setState place { left.stateAt place with openMerges := [] }).Unmoved
      ExecState.openMerges (final (terminate place) execution) :=
    leaves.unmoved_final (bind_of_ok ran)
  constructor
  · have sizes : left.states.size = execution.states.size := by rw [same]
    exact sizes ▸ size_states_setState left place _ ▸ unmoved.size_le
  · intro other
    rw [unmoved.field_eq, openMerges_emptied, states]
  · rw [unmoved.rendezvous_eq]
    exact size
  · intro meeting inside
    rw [← waits meeting inside]
    unfold waiting
    rw [unmoved.rendezvous_eq]
    rfl

/-! ## Opening and closing -/

theorem final_openMerge
    (execution : Execution)
    (place meeting : Nat) :
    final (openMerge place meeting) execution =
      (execution.setState place
        { execution.stateAt place with
          openMerges := (execution.stateAt place).openMerges ++ [meeting] }).setWaiting meeting
        (execution.waiting meeting ++ [place]) := rfl

/-- Closing a meeting that is not open changes nothing. -/
theorem final_closeMerge
    (execution : Execution)
    (place meeting : Nat) :
    final (closeMerge place meeting) execution =
      if meeting ∈ (execution.stateAt place).openMerges then
        (execution.setState place
          { execution.stateAt place with
            openMerges := (execution.stateAt place).openMerges.erase meeting }).setWaiting meeting
          ((execution.waiting meeting).erase place)
      else execution := by
  unfold final closeMerge
  rw [get_bind]
  by_cases isOpen : meeting ∈ (execution.stateAt place).openMerges
  · rw [if_pos isOpen, if_pos isOpen]
    rfl
  · rw [if_neg isOpen, if_neg isOpen]
    rfl

/-! ## Every event keeps the balance -/

/-- Events that leave open meetings alone keep the books balanced. -/
theorem Balanced.of_unmoved
    {later : Execution}
    (balanced : execution.Balanced)
    (unmoved : execution.Unmoved ExecState.openMerges later) :
    later.Balanced := by
  intro place meeting
  rw [unmoved.field_eq, ← balanced place meeting]
  unfold waiting
  rw [unmoved.rendezvous_eq]

/-- A fork keeps them balanced, since the child is entered on both sides. -/
theorem Balanced.of_forked
    {place : Nat}
    {later : Execution}
    (balanced : execution.Balanced)
    (forked : Forked place execution later) :
    later.Balanced := by
  -- The place of the new state stood for no state, which waits nowhere.
  have nowhere (meeting : Nat) : (execution.waiting meeting).count execution.states.size = 0 := by
    rw [balanced, stateAt_of_size_le (Nat.le_refl _)]
    rfl
  intro other meeting
  rw [forked.openMerges_eq]
  by_cases inside : meeting < execution.rendezvous.size
  · rw [forked.waiting_eq meeting inside, count_iterate_append]
    split
    next isNew => rw [isNew, nowhere, Nat.zero_add]
    next => rw [balanced, Nat.add_zero]
  · rw [waiting_of_size_le (by rw [forked.size_eq]; exact Nat.le_of_not_lt inside), List.count_nil]
    have closed (place : Nat) : (execution.stateAt place).openMerges.count meeting = 0 := by
      rw [← balanced, waiting_of_size_le (Nat.le_of_not_lt inside), List.count_nil]
    split
    next => exact (closed place).symm
    next => exact (closed other).symm

/-- So does the end of a state, since it is taken out on both sides. -/
theorem Balanced.of_ended
    {place : Nat}
    {later : Execution}
    (balanced : execution.Balanced)
    (ended : Ended place execution later) :
    later.Balanced := by
  intro other meeting
  rw [ended.openMerges_eq]
  by_cases inside : meeting < execution.rendezvous.size
  · rw [ended.waiting_eq meeting inside, count_iterate_erase, balanced]
    split
    next here => rw [here, Nat.sub_self, List.count_nil]
    next => rw [Nat.sub_zero]
  · have outside := Nat.le_of_not_lt inside
    rw [waiting_of_size_le (by rw [ended.size_eq]; exact outside), List.count_nil]
    split
    next => rfl
    next => rw [← balanced, waiting_of_size_le outside, List.count_nil]

/-- One state and one rendezvous change their lists, and agree about each other. -/
theorem Balanced.update
    (balanced : execution.Balanced)
    {place meeting : Nat}
    {state : ExecState}
    {places : List Nat}
    (isState : place < execution.states.size)
    (isMeeting : meeting < execution.rendezvous.size)
    (here : places.count place = state.openMerges.count meeting)
    (otherStates : ∀ other ≠ place,
      places.count other = (execution.waiting meeting).count other)
    (otherMeetings : ∀ other ≠ meeting,
      state.openMerges.count other = (execution.stateAt place).openMerges.count other) :
    ((execution.setState place state).setWaiting meeting places).Balanced := by
  intro otherPlace otherMeeting
  have states : (((execution.setState place state).setWaiting meeting places).stateAt
      otherPlace) = _ := stateAt_setState execution place state otherPlace
  have waits : ((execution.setState place state).setWaiting meeting places).waiting
      otherMeeting = _ := waiting_setWaiting execution meeting places otherMeeting
  rw [states, waits]
  simp only [isState, isMeeting, and_true]
  split
  next isHere =>
      subst isHere
      split
      next isPlace => rw [isPlace, here]
      next notPlace => rw [otherStates otherPlace notPlace, balanced]
  next notHere =>
      split
      next isPlace => rw [isPlace, balanced, otherMeetings otherMeeting notHere]
      next => exact balanced otherPlace otherMeeting

/-- Opening a meeting enters the state on both sides. -/
theorem Balanced.openMerge
    (balanced : execution.Balanced)
    {place meeting : Nat}
    (isState : place < execution.states.size)
    (isMeeting : meeting < execution.rendezvous.size) :
    (final (openMerge place meeting) execution).Balanced := by
  rw [final_openMerge]
  refine balanced.update isState isMeeting ?_ ?_ ?_
  · rw [List.count_append, List.count_append, balanced, List.count_singleton_self,
      List.count_singleton_self]
  · intro other different
    rw [List.count_append, List.count_singleton, if_neg (by simpa using different.symm),
      Nat.add_zero]
  · intro other different
    rw [List.count_append, List.count_singleton, if_neg (by simpa using different.symm),
      Nat.add_zero]

/-- Closing takes it out on both sides, once. -/
theorem Balanced.closeMerge
    (balanced : execution.Balanced)
    (place meeting : Nat) :
    (final (closeMerge place meeting) execution).Balanced := by
  rw [final_closeMerge]
  split
  next isOpen =>
      refine balanced.update (lt_size_of_mem_openMerges isOpen) (balanced.lt_size isOpen)
        ?_ ?_ ?_
      · rw [List.count_erase_self, List.count_erase_self, balanced]
      · intro other different
        exact List.count_erase_of_ne different
      · intro other different
        exact List.count_erase_of_ne different
  next => exact balanced

theorem undergo_fork
    (execution : Execution)
    (place : Nat) :
    execution.undergo (.act (.fork place)) = final (fork place) execution := by
  show final (fork place >>= fun _ => pure ()) execution = _
  unfold final
  cases ran : fork place execution with
  | ok result later => rw [bind_of_ok ran]; rfl
  | error fault later => rw [bind_of_error ran]

theorem waiting_meet
    (execution : Execution)
    (meeting : Nat) :
    (execution.undergo .meet).waiting meeting = execution.waiting meeting := by
  refine (getD_push _ _ _ _).trans ?_
  split
  next isNew => rw [waiting_of_size_le (Nat.le_of_eq isNew.symm)]
  next => rfl

/-- Every event keeps the balance, if what is opened is there. -/
theorem Balanced.undergo
    (balanced : execution.Balanced)
    {event : Event}
    (present : ∀ place ∈ event.places, place < execution.states.size)
    (there : ∀ meeting ∈ event.meetings, meeting < execution.rendezvous.size) :
    (execution.undergo event).Balanced := by
  cases event with
  | act action =>
      by_cases isFork : ∃ place, action = .fork place
      · obtain ⟨place, rfl⟩ := isFork
        rw [undergo_fork]
        exact balanced.of_forked (forked_fork execution place)
      · have leaves := action.leaves_run fun place same => isFork ⟨place, same⟩
        exact balanced.of_unmoved (leaves execution).final
  | renumber place patch => exact balanced.of_unmoved (unmoved_setState rfl)
  | meet =>
      intro place meeting
      rw [waiting_meet]
      exact balanced place meeting
  | openMerge place meeting =>
      exact balanced.openMerge (present place List.mem_cons_self) (there meeting List.mem_cons_self)
  | closeMerge place meeting => exact balanced.closeMerge place meeting
  | release registration => exact balanced.closeMerge _ _
  | terminate place => exact balanced.of_ended (ended_terminate execution place)

/-! ## States that have ended -/

/-- A state that has no rendezvous open. -/
structure Idle (place : Nat) (execution : Execution) : Prop where
  isState : place < execution.states.size
  nothing : (execution.stateAt place).openMerges = []

theorem Idle.of_unmoved
    {place : Nat}
    {later : Execution}
    (idle : Idle place execution)
    (unmoved : execution.Unmoved ExecState.openMerges later) :
    Idle place later :=
  ⟨Nat.lt_of_lt_of_le idle.isState unmoved.size_le,
    (unmoved.field_eq place).trans idle.nothing⟩

/-- Another state changes its list, or the list stays empty. -/
theorem Idle.update
    {place : Nat}
    (idle : Idle place execution)
    {other meeting : Nat}
    {state : ExecState}
    {places : List Nat}
    (unaffected : other = place → state.openMerges = []) :
    Idle place ((execution.setState other state).setWaiting meeting places) := by
  refine ⟨?_, ?_⟩
  · exact Nat.lt_of_lt_of_eq idle.isState (size_states_setState _ _ _).symm
  · change ((execution.setState other state).stateAt place).openMerges = []
    rw [stateAt_setState]
    split
    next here => exact unaffected here.1.symm
    next => exact idle.nothing

/-- A state stays idle until it opens a rendezvous. -/
theorem Idle.undergo
    {place : Nat}
    (idle : Idle place execution)
    {event : Event}
    (notOpened : ∀ meeting, event ≠ .openMerge place meeting) :
    Idle place (execution.undergo event) := by
  have closes (other meeting : Nat) :
      Idle place (final (Execution.closeMerge other meeting) execution) := by
    rw [final_closeMerge]
    split
    next isOpen =>
        refine idle.update fun same => ?_
        rw [same, idle.nothing] at isOpen
        exact absurd isOpen List.not_mem_nil
    next => exact idle
  cases event with
  | act action =>
      by_cases isFork : ∃ place, action = .fork place
      · obtain ⟨other, rfl⟩ := isFork
        have forked := forked_fork execution other
        rw [undergo_fork]
        refine ⟨Nat.lt_trans idle.isState forked.size_lt, ?_⟩
        rw [← idle.nothing]
        exact (forked.openMerges_eq place).trans (if_neg (Nat.ne_of_lt idle.isState))
      · have leaves := action.leaves_run fun place same => isFork ⟨place, same⟩
        exact idle.of_unmoved (leaves execution).final
  | renumber other patch => exact idle.of_unmoved (unmoved_setState rfl)
  | meet => exact ⟨idle.isState, idle.nothing⟩
  | openMerge other meeting =>
      exact idle.update fun same => absurd (same ▸ rfl) (notOpened meeting)
  | closeMerge other meeting => exact closes other meeting
  | release registration => exact closes _ _
  | terminate other =>
      have ended := ended_terminate execution other
      refine ⟨Nat.lt_of_lt_of_le idle.isState ended.size_le, ?_⟩
      refine (ended.openMerges_eq place).trans ?_
      split
      next => rfl
      next => exact idle.nothing

/-! ## Runs -/

theorem admits_append
    {earlier later : List Event} :
    execution.admits (earlier ++ later) = true ↔
      execution.admits earlier = true ∧
        (earlier.foldl undergo execution).admits later = true := by
  induction earlier generalizing execution with
  | nil => simp [admits]
  | cons event rest inductionHypothesis =>
      rw [List.cons_append, admits_cons, admits_cons, inductionHypothesis, List.foldl_cons]
      simp only [and_assoc]

/-- Every admitted run keeps the books balanced. -/
theorem Balanced.foldl_undergo
    {events : List Event}
    (balanced : execution.Balanced)
    (admitted : execution.admits events = true) :
    (events.foldl Execution.undergo execution).Balanced := by
  induction events generalizing execution with
  | nil => exact balanced
  | cons event rest inductionHypothesis =>
      obtain ⟨present, there, later⟩ := admits_cons.1 admitted
      exact inductionHypothesis (balanced.undergo present there) later

/-- A state that waits nowhere waits nowhere as long as it opens no meeting. -/
theorem Idle.foldl_undergo
    {place : Nat}
    {events : List Event}
    (idle : Idle place execution)
    (notOpened : ∀ meeting, .openMerge place meeting ∉ events) :
    Idle place (events.foldl Execution.undergo execution) := by
  induction events generalizing execution with
  | nil => exact idle
  | cons event rest inductionHypothesis =>
      refine inductionHypothesis (idle.undergo ?_) ?_
      · rintro meeting rfl
        exact notOpened meeting List.mem_cons_self
      · intro meeting member
        exact notOpened meeting (List.mem_cons_of_mem _ member)

end

/--
Whatever happens, a state waits at a rendezvous as often as it has opened it and not closed
it.  A state that has ended and has not opened a rendezvous since waits nowhere.
-/
theorem count_waiting
    {events : List Event}
    (admitted : admits {} events = true) :
    (∀ place meeting,
      ((events.foldl undergo {}).waiting meeting).count place =
        ((events.foldl undergo {}).stateAt place).openMerges.count meeting) ∧
    ∀ earlier place later, events = earlier ++ .terminate place :: later →
      (∀ meeting, .openMerge place meeting ∉ later) →
        ∀ meeting, place ∉ (events.foldl undergo {}).waiting meeting := by
  have nobody : Balanced {} := fun place meeting => by simp [waiting, stateAt]; rfl
  have balanced := nobody.foldl_undergo admitted
  refine ⟨balanced, ?_⟩
  rintro earlier place later rfl notOpened meeting
  obtain ⟨_, remaining⟩ := admits_append.1 admitted
  obtain ⟨present, _, _⟩ := admits_cons.1 remaining
  have ended := ended_terminate (earlier.foldl undergo {}) place
  have idle : Idle place ((earlier.foldl undergo {}).undergo (.terminate place)) :=
    ⟨Nat.lt_of_lt_of_le (present place List.mem_cons_self) ended.size_le,
      (ended.openMerges_eq place).trans (if_pos rfl)⟩
  have idleAfter := idle.foldl_undergo notOpened
  rw [← List.foldl_cons, ← List.foldl_append] at idleAfter
  rw [← List.count_eq_zero, balanced place meeting, idleAfter.nothing, List.count_nil]

end Execution

namespace RepeatedOpening

def function : Function :=
  { key := 0, name := "f", registers := 1, instructions := [{ number := 1 }]
    argRegisters := [], argNames := [] }

/--
A state opens a rendezvous twice and another one once, and is forked.  It closes the first
and releases it twice, which is once too often.
-/
def opened : List Event :=
  [.act (.create function (some 1) {}), .meet, .meet, .openMerge 0 0, .openMerge 0 1,
    .openMerge 0 0, .act (.fork 0), .closeMerge 0 0, .release ⟨0, 0⟩, .release ⟨0, 0⟩,
    .act (.merge 0 1)]

/-- The fork ends, and what it had opened is released too late. -/
def events : List Event :=
  opened ++ [.terminate 1, .release ⟨1, 1⟩]

/-- The states that wait at the two rendezvous after some events. -/
def waiting (events : List Event) : List (List Nat) :=
  [0, 1].map (events.foldl Execution.undergo {}).waiting

end RepeatedOpening

open Execution RepeatedOpening in
/-- The fork waits twice at one rendezvous and once at the other, until it ends. -/
theorem count_waiting_repeated :
    RepeatedOpening.waiting opened = [[1, 1], [0, 1]] ∧
      RepeatedOpening.waiting events = [[], [0]] ∧
        (∀ place meeting,
          ((events.foldl undergo {}).waiting meeting).count place =
            ((events.foldl undergo {}).stateAt place).openMerges.count meeting) ∧
          ∀ meeting, 1 ∉ (events.foldl undergo {}).waiting meeting := by
  have admitted : admits {} events = true := by decide +kernel
  obtain ⟨balanced, gone⟩ := count_waiting admitted
  refine ⟨by decide +kernel, by decide +kernel, balanced, ?_⟩
  exact gone opened 1 [.release ⟨1, 1⟩] rfl (by simp)

end Diverge
