import Diverge.Proofs.Merge.Alike

/-!
# The order of merges

States that are alike are merged until one is left.  Whatever the order, and whichever
side receives the other, the state that is left stands for all of them
(`Execution.Represents`): its constraints hold when those of one of them did, and then
it shows one for which they did.  What can stop the merges is a constraint without a
text, since each merge asks for the texts of the constraints of both sides, be they
told or not (`Execution.mergeAll_alike`).
-/

namespace Diverge

open Stateful

namespace Execution

/-! ## What a state stands for -/

/-- A state that stands for several states of an earlier execution. -/
structure Represents
    (assignment : Assignment)
    (defined : Nat → Nat → Prop)
    (before : Execution)
    (places : List Nat)
    (after : Execution)
    (survivor : Nat) : Prop where
  holds_iff : (after.stateAt survivor).constraints.Holds assignment ↔
    ∃ place ∈ places, (before.stateAt place).constraints.Holds assignment
  shows : (after.stateAt survivor).constraints.Holds assignment →
    ∃ place ∈ places, (before.stateAt place).constraints.Holds assignment ∧
      Shows assignment defined after survivor before place

section

variable
  {histories : List Updates}
  {assignment : Assignment}
  {defined : Nat → Nat → Prop}
  {before middle after : Execution}
  {place otherPlace survivor : Nat}
  {guard : Expr}

/-- What a state shows of another, and that of a third, it shows of the third. -/
theorem Shows.trans
    {source origin : Nat}
    (first : Shows assignment defined after place middle source)
    (second : Shows assignment defined middle source before origin) :
    Shows assignment defined after place before origin where
  registers := fun frame register isDefined =>
    (first.registers frame register isDefined).trans
      (second.registers frame register isDefined)
  bytes := fun object => (first.bytes object).trans (second.bytes object)

/-- A state that was kept represents itself. -/
theorem Keeps.represents
    (keeps : Keeps before after place) :
    Represents assignment defined before [place] after place := by
  constructor
  · rw [keeps.state_eq]
    simp
  · intro holds
    rw [keeps.state_eq] at holds
    refine ⟨place, List.mem_singleton_self place, holds, ?_, ?_⟩
    · intro frame register _
      rw [keeps.state_eq]
    · intro object
      rw [keeps.imageOf?_eq]

/-- A state that took another in stands for both. -/
theorem Merged.represents
    (sound : before.Sound histories)
    (mergeable : before.Mergeable place otherPlace)
    (merged : Merged guard (before.differing place otherPlace) place otherPlace before after)
    (filled : before.IsFilled place)
    (filledOther : before.IsFilled otherPlace)
    (conditions : (before.stateAt place).constraints.AreConditions assignment)
    (conditionsOther : (before.stateAt otherPlace).constraints.AreConditions assignment)
    (both : ∀ frame register, defined frame register →
      before.BothDefine place otherPlace frame register) :
    Represents assignment defined before [place, otherPlace] after place := by
  have holdsIff := merged.reconciled.holds_iff assignment conditions conditionsOther
  obtain ⟨truth, judged, ofReceiver, ofOther⟩ := merged.reconciled.judged assignment conditions
  have shows := merged.shows sound mergeable judged fun _ => ⟨filled, filledOther⟩
  constructor
  · rw [holdsIff]
    simp
  · intro holds
    rw [holdsIff] at holds
    refine ⟨if truth then place else otherPlace, ?_, ?_, ?_, shows.bytes⟩
    · cases truth <;> simp
    · cases truth with
      | true =>
          rcases holds with here | there
          · exact here
          · exact ofOther rfl there
      | false =>
          rcases holds with here | there
          · exact (Bool.false_ne_true (ofReceiver here)).elim
          · exact there
    · intro frame register isDefined
      exact shows.registers frame register (both frame register isDefined)

/-- A state that stands for states stands for all that these stand for. -/
theorem Represents.trans
    {places live : List Nat}
    {group : Nat → List Nat}
    (last : Represents assignment defined middle live after survivor)
    (each : ∀ place ∈ live, Represents assignment defined before (group place) middle place)
    (covers : ∀ place, place ∈ places ↔ ∃ member ∈ live, place ∈ group member) :
    Represents assignment defined before places after survivor := by
  constructor
  · rw [last.holds_iff]
    constructor
    · rintro ⟨member, isLive, holds⟩
      obtain ⟨place, inside, held⟩ := (each member isLive).holds_iff.1 holds
      exact ⟨place, (covers place).2 ⟨member, isLive, inside⟩, held⟩
    · rintro ⟨place, listed, held⟩
      obtain ⟨member, isLive, inside⟩ := (covers place).1 listed
      exact ⟨member, isLive, (each member isLive).holds_iff.2 ⟨place, inside, held⟩⟩
  · intro holds
    obtain ⟨member, isLive, held, shows⟩ := last.shows holds
    obtain ⟨place, inside, heldBefore, showsBefore⟩ := (each member isLive).shows held
    exact ⟨place, (covers place).2 ⟨member, isLive, inside⟩, heldBefore,
      shows.trans showsBefore⟩

end

/-- The constraints of some states have truth values, and the states some registers. -/
structure Decides
    (assignment : Assignment)
    (defined : Nat → Nat → Prop)
    (execution : Execution)
    (places : List Nat) : Prop where
  conditions : ∀ place ∈ places,
    (execution.stateAt place).constraints.AreConditions assignment
  registers : ∀ frame register, defined frame register → ∀ place ∈ places,
    (execution.stateAt place).register? frame register ≠ none

section

variable
  {histories : List Updates}
  {assignment : Assignment}
  {defined : Nat → Nat → Prop}
  {before after : Execution}
  {places : List Nat}
  {place otherPlace : Nat}
  {guard : Expr}

/-- A merge keeps a family in which each member's constraints can be decided. -/
theorem Decides.merged
    (decides : Decides assignment defined before places)
    (sound : before.Sound histories)
    (alike : before.Alike places)
    (member : place ∈ places)
    (memberToo : otherPlace ∈ places)
    (merged : Merged guard (before.differing place otherPlace) place otherPlace
      before after) :
    Decides assignment defined after (places.erase otherPlace) := by
  have present := (alike.admissible place member).present
  have keeps (another : Nat) (left : another ∈ places.erase otherPlace)
      (apart : another ≠ place) : Keeps before after another :=
    merged.keeps sound present
      (alike.admissible another (List.mem_of_mem_erase left)).present apart
  constructor
  · intro another left
    by_cases here : another = place
    · rw [here]
      exact merged.reconciled.inherits _ (Expr.logical_condition assignment)
        (decides.conditions place member) (decides.conditions otherPlace memberToo)
    · rw [(keeps another left here).state_eq]
      exact decides.conditions another (List.mem_of_mem_erase left)
  · intro frame register isDefined another left
    by_cases here : another = place
    · have first := decides.registers frame register isDefined place member
      have second := decides.registers frame register isDefined otherPlace memberToo
      rw [here]
      exact (merged.registers frame register).ne_none first second
    · rw [(keeps another left here).state_eq]
      exact decides.registers frame register isDefined another (List.mem_of_mem_erase left)

/-- What stands for the states after a merge stands for those before it. -/
theorem Represents.of_merged
    {last : Execution}
    {survivor : Nat}
    (sound : before.Sound histories)
    (alike : before.Alike places)
    (member : place ∈ places)
    (memberToo : otherPlace ∈ places)
    (apart : place ≠ otherPlace)
    (merged : Merged guard (before.differing place otherPlace) place otherPlace
      before after)
    (decides : Decides assignment defined before places)
    (represents :
      Represents assignment defined after (places.erase otherPlace) last survivor) :
    Represents assignment defined before places last survivor := by
  have admissible := alike.admissible place member
  refine @Represents.trans _ _ _ _ _ _ _ _
    (fun another => if another = place then [place, otherPlace] else [another])
    represents ?_ ?_
  · intro another left
    by_cases here : another = place
    · rw [if_pos here, here]
      exact merged.represents sound (alike.mergeable member memberToo) admissible.filled
        (alike.admissible otherPlace memberToo).filled (decides.conditions place member)
        (decides.conditions otherPlace memberToo) fun frame register isDefined =>
          ⟨decides.registers frame register isDefined place member,
            decides.registers frame register isDefined otherPlace memberToo⟩
    · rw [if_neg here]
      exact (merged.keeps sound admissible.present
        (alike.admissible another (List.mem_of_mem_erase left)).present here).represents
  · intro another
    have receives : place ∈ places.erase otherPlace :=
      (List.mem_erase_of_ne apart).2 member
    constructor
    · intro listed
      by_cases taken : another = otherPlace
      · exact ⟨place, receives, by simp [taken]⟩
      · refine ⟨another, (List.mem_erase_of_ne taken).2 listed, ?_⟩
        by_cases here : another = place <;> simp [here]
    · rintro ⟨source, left, inside⟩
      by_cases here : source = place
      · rw [if_pos here] at inside
        rcases List.mem_pair.1 inside with rfl | rfl
        · exact member
        · exact memberToo
      · rw [if_neg here, List.mem_singleton] at inside
        rw [inside]
        exact List.mem_of_mem_erase left

end

/-! ## Merging in any order -/

/--
Merges of the states that are left, one by one until there is one; on each either
side may be the receiver.  Every tree of merges, done from its leaves in any order, is
such a schedule.
-/
inductive Schedule : List Nat → List (Nat × Nat) → Nat → Prop where
  | done (survivor : Nat) : Schedule [survivor] [] survivor
  | merge
      {live : List Nat}
      {receiver other survivor : Nat}
      {merges : List (Nat × Nat)}
      (isLive : receiver ∈ live)
      (isLiveToo : other ∈ live)
      (apart : receiver ≠ other)
      (rest : Schedule (live.erase other) merges survivor) :
      Schedule live ((receiver, other) :: merges) survivor

/-- Merges that are made one after another, each with its answer. -/
def mergeAll (merges : List (Nat × Nat)) : ExecutionM (List Bool) :=
  merges.mapM fun pair => merge pair.1 pair.2

/-- When no merge is left there is one state left, the survivor. -/
theorem Schedule.eq_singleton
    {live : List Nat}
    {survivor : Nat}
    (schedule : Schedule live [] survivor) :
    live = [survivor] := by
  cases schedule
  rfl

section

variable
  {histories : List Updates}
  {execution : Execution}
  {places : List Nat}
  {merges : List (Nat × Nat)}
  {survivor : Nat}

/-- What is left of merging alike states, and what it takes. -/
theorem Schedule.moves_mergeAll
    {safe : Prop}
    (schedule : Schedule places merges survivor)
    (sound : execution.Sound histories)
    (alike : execution.Alike places)
    (texts : safe → ∀ place ∈ places, (execution.stateAt place).constraints.HaveTexts) :
    Moves (Evolves histories) (mergeAll merges) execution
      (fun answers later =>
        answers = List.replicate merges.length true ∧
          (merges ≠ [] →
            ∀ place ∈ places, (execution.stateAt place).constraints.HaveTexts) ∧
          ∀ assignment defined, Decides assignment defined execution places →
            Represents assignment defined execution places later survivor) safe := by
  induction schedule generalizing execution with
  | done survivor =>
      refine Moves.pure (Evolves.refl sound) ⟨rfl, fun some => (some rfl).elim, ?_⟩
      intro assignment defined _
      have keeps : Keeps execution execution survivor := ⟨rfl, rfl⟩
      exact keeps.represents
  | @merge live receiver other survivor merges isLive isLiveToo apart rest
      inductionHypothesis =>
      unfold mergeAll
      rw [List.mapM_cons]
      refine Moves.bind Evolves.trans ((alike.moves_merge sound isLive isLiveToo
        fun isSafe => ⟨texts isSafe receiver isLive, texts isSafe other isLiveToo⟩).mono ?_)
      rintro _ middle evolves ⟨rfl, ⟨ofReceiver, ofOther⟩, guard, merged⟩
      refine Moves.bind Evolves.trans ((inductionHypothesis evolves.sound
        (alike.merged sound evolves.sound isLive isLiveToo merged)
        fun isSafe => alike.haveTexts sound isLive isLiveToo merged (texts isSafe)).mono ?_)
      rintro _ later evolvesToo ⟨rfl, textsLeft, represents⟩
      refine Moves.pure (Evolves.refl evolvesToo.sound) ⟨rfl, fun _ place listed => ?_, ?_⟩
      · by_cases here : place = receiver
        · rw [here]
          exact ofReceiver
        by_cases taken : place = other
        · rw [taken]
          exact ofOther
        have left := (List.mem_erase_of_ne taken).2 listed
        have receives := (List.mem_erase_of_ne apart).2 isLive
        -- Two states are left, so another merge asks for the text.
        have more : merges ≠ [] := by
          rintro rfl
          rw [rest.eq_singleton, List.mem_singleton] at left receives
          exact here (left.trans receives.symm)
        have keeps := merged.keeps sound (alike.admissible receiver isLive).present
          (alike.admissible place listed).present here
        rw [← keeps.state_eq]
        exact textsLeft more place left
      · intro assignment defined decides
        exact Represents.of_merged sound alike isLive isLiveToo apart merged decides
          (represents assignment defined (decides.merged sound alike isLive isLiveToo merged))

end

/--
Alike states can be merged in any order exactly if no constraint shows an integer with
too many digits, and the state that is left stands for all of them.
-/
theorem mergeAll_alike
    {system : System}
    (reached : system.Reachable)
    {places : List Nat}
    (alike : system.execution.Alike places)
    (several : 2 ≤ places.length)
    {merges : List (Nat × Nat)}
    {survivor : Nat}
    (schedule : Schedule places merges survivor) :
    ((∃ later, mergeAll merges system.execution =
        .ok (List.replicate merges.length true) later) ↔
      ∀ place ∈ places, (system.execution.stateAt place).constraints.AreShort) ∧
    ∀ answers later, mergeAll merges system.execution = .ok answers later →
      answers = List.replicate merges.length true ∧
        ∀ assignment,
          (∀ place ∈ places,
            (system.execution.stateAt place).constraints.Evaluate assignment) →
          Represents assignment
            (fun frame register => ∀ place ∈ places,
              (system.execution.stateAt place).register? frame register ≠ none)
            system.execution places later survivor := by
  have sound := reached.sound.execution
  have moves := schedule.moves_mergeAll sound alike id
  have some : merges ≠ [] := by
    rintro rfl
    rw [schedule.eq_singleton] at several
    exact Nat.lt_irrefl 1 several
  have texts (place : Nat) := ConstraintSet.haveTexts_iff (sound.states place).constraints
  constructor
  · constructor
    · rintro ⟨later, ran⟩ place listed
      exact (texts place).1 ((moves.of_ok ran).2.2.1 some place listed)
    · intro short
      obtain ⟨answers, later, ran⟩ :=
        moves.succeeds fun place listed => (texts place).2 (short place listed)
      obtain ⟨_, rfl, _⟩ := moves.of_ok ran
      exact ⟨later, ran⟩
  · intro answers later ran
    obtain ⟨_, allTrue, _, represents⟩ := moves.of_ok ran
    refine ⟨allTrue, ?_⟩
    intro assignment evaluate
    refine represents assignment _ ⟨?_, ?_⟩
    · intro place listed
      exact ConstraintSet.areConditions_of_areBits (sound.states place).constraints
        (alike.admissible place listed).bits (evaluate place listed)
    · intro frame register isDefined
      exact isDefined

end Execution

namespace ThreePaths

open ForkedPath

/-- Two paths of one revision, and one of another that goes with the second of them. -/
def system : System :=
  [.create function (some 1) {},
    .bind 0 object { object, readOnly := false, owner := 0, bytes := [zero] },
    .assign 0 0 0 (some zero), .fork 0, .create function (some 2) {},
    .bind 2 object { object, readOnly := false, owner := 0, bytes := [five] },
    .assign 2 0 0 (some five), .constrain 0 isZero, .constrain 1 notZero,
    .constrain 2 notZero].foldl System.act (System.equip {} workshop)

theorem reachable : system.Reachable := by
  refine System.Reachable.foldl_act (System.Reachable.equip reachable_workshop) ?_
    (by decide +kernel)
  have atHand : (System.equip {} workshop).expressions =
    [notZero, isZero, five, zero, input, index] := rfl
  rw [atHand]
  simp [Action.uses]

theorem entries_zero :
    (system.execution.stateAt 0).constraints.entries = [isZero] := rfl

theorem entries_one :
    (system.execution.stateAt 1).constraints.entries = [notZero] := rfl

theorem entries_two :
    (system.execution.stateAt 2).constraints.entries = [notZero] := rfl

theorem admissible
    {place id : Nat}
    {operator : BinaryOp}
    {byte : Expr}
    (present : place < system.execution.states.size)
    (numbered : (system.execution.stateAt place).patch ≠ none)
    (entries : (system.execution.stateAt place).constraints.entries =
      [.binary ⟨id, 1, false⟩ operator input zero])
    (listing : system.execution.heap.listing (system.execution.stateAt place).space =
      [(object, { object, readOnly := false, owner := 0, bytes := [byte] })])
    (width : byte.width = 8) :
    system.execution.Admissible place where
  present := present
  numbered := numbered
  bits := areBits entries
  filled := isFilled listing width
  writable := by
    intro shown contents isImage
    have member := Assoc.mem_of_get? isImage
    rw [listing, List.mem_singleton] at member
    cases member
    rfl

theorem alike : system.execution.Alike [0, 1, 2] where
  once := by decide
  admissible := by
    simp only [List.forall_mem_cons, List.not_mem_nil, false_imp_iff, implies_true, and_true]
    refine ⟨?_, ?_, ?_⟩
    · exact admissible (by decide +kernel) (by decide +kernel) entries_zero rfl rfl
    · exact admissible (by decide +kernel) (by decide +kernel) entries_one rfl rfl
    · exact admissible (by decide +kernel) (by decide +kernel) entries_two rfl rfl
  outline_eq := by decide +kernel
  objects_eq := by decide +kernel

theorem schedule : Execution.Schedule [0, 1, 2] [(2, 1), (0, 2)] 0 :=
  .merge (by decide) (by decide) (by decide)
    (.merge (by decide) (by decide) (by decide) (.done 0))

theorem areShort
    {set : ConstraintSet}
    {id : Nat}
    {operator : BinaryOp}
    (entries : set.entries = [.binary ⟨id, 1, false⟩ operator input zero]) :
    set.AreShort := by
  intro entry member
  rw [entries, List.mem_singleton] at member
  rw [member]
  simp [input, zero, index, Expr.throughout_binary, Expr.throughout_read,
    Expr.throughout_const, Expr.Short, Expr.numbers, Expr.width, Expr.tag, Integer.lt_limit]

end ThreePaths

open Execution ForkedPath ThreePaths in
/-- Under an input of seven the state that is left shows a path that is not zero. -/
theorem mergeAll_alike_threePaths :
    ∃ later, mergeAll [(2, 1), (0, 2)] ThreePaths.system.execution = .ok [true, true] later ∧
      (later.stateAt 0).constraints.Holds assignment ∧
        ∃ place ∈ [1, 2], Shows assignment
          (fun frame register => ∀ place ∈ [0, 1, 2],
            (ThreePaths.system.execution.stateAt place).register? frame register ≠ none)
          later 0 ThreePaths.system.execution place := by
  obtain ⟨succeeds, ended⟩ := mergeAll_alike ThreePaths.reachable alike (by decide) schedule
  have short : ∀ place ∈ [0, 1, 2],
      (ThreePaths.system.execution.stateAt place).constraints.AreShort := by
    simp only [List.forall_mem_cons, List.not_mem_nil, false_imp_iff, implies_true, and_true]
    exact ⟨areShort ThreePaths.entries_zero, areShort ThreePaths.entries_one,
      areShort ThreePaths.entries_two⟩
  have evaluate : ∀ place ∈ [0, 1, 2],
      (ThreePaths.system.execution.stateAt place).constraints.Evaluate assignment := by
    simp only [List.forall_mem_cons, List.not_mem_nil, false_imp_iff, implies_true, and_true]
    exact ⟨evaluates ThreePaths.entries_zero ⟨_, rfl⟩,
      evaluates ThreePaths.entries_one ⟨_, rfl⟩, evaluates ThreePaths.entries_two ⟨_, rfl⟩⟩
  obtain ⟨later, ran⟩ := succeeds.2 short
  have represents := (ended _ later ran).2 assignment evaluate
  have holds := represents.holds_iff.2 ⟨1, by decide, holds_notZero ThreePaths.entries_one⟩
  refine ⟨later, ran, holds, ?_⟩
  obtain ⟨place, listed, held, shows⟩ := represents.shows holds
  rcases List.mem_cons.1 listed with rfl | others
  · exact (fails_isZero ThreePaths.entries_zero held).elim
  · exact ⟨place, others, shows⟩

namespace LongConstant

open ForkedPath

def long : Expr := .const ⟨3, 20000, false⟩ Integer.limit

def widened : Expr := .zext ⟨4, 20000, false⟩ input

def isLess : Expr := .binary ⟨5, 1, false⟩ .ult widened long

def workshop : Workshop :=
  [.constant 0 32, .read (.root array) index false, .constant Integer.limit 20000,
    .zext input 20000 false, .binary .ult widened long false].foldl Workshop.construct
      (Workshop.declare {} "a" 1 none 32 8)

/-- Two paths, of which one is bounded by a constant with one digit too many. -/
def system : System :=
  [.create function (some 1) {}, .fork 0, .constrain 0 isLess].foldl System.act
    (System.equip {} workshop)

-- Nothing is traced, and the merge fails all the same.
example :
    (match Execution.merge 0 1 system.execution with
      | .ok _ _ => false
      | .error fault _ => fault matches .tooManyDigits) = true := by decide +kernel

end LongConstant

end Diverge
