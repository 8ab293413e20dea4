import Diverge.Expr.Split
import Diverge.Proofs.Merge.Confinement
import Diverge.Proofs.Merge.Order
import Diverge.Proofs.State.Course

/-!
# What is left of the revisions

Where states of different revisions are merged, a register becomes a choice between two
revisions, which names both.  The receiver goes on under its own number.  When it takes
another state in, the choice it holds becomes a branch of a new choice, under the number
of the receiver, and the numbers within count no more.

So of states that are merged into one, one after another, all values can be recovered,
but only the first and the last under their own revision: those in between are listed as
if they were of the first (`Execution.split_mergeAll`).  Two revisions can be told apart.
-/

namespace Diverge

open Stateful

/-! ## Registers of merged frames -/

/-- A register holds what was built, in some table, of the values of the two sides. -/
def Expr.Built
    (value : Expr → Expr → Build Expr) (first second : Expr) (merged : Option Expr) : Prop :=
  ∃ result before after, merged = some result ∧ value first second before = .ok result after

section

variable (value : Expr → Expr → Build Expr)

/-- Every register that both sides define is built from the two values. -/
theorem built_mergeLocals
    (firsts seconds : List (Option Expr))
    (table : Table) :
    Yields (mergeLocals value firsts seconds) table fun merged _ =>
      ∀ (register : Nat) (first second : Expr),
        firsts[register]?.join = some first → seconds[register]?.join = some second →
          Expr.Built value first second merged[register]?.join := by
  induction firsts generalizing seconds table with
  | nil => exact fun _ _ _ register first second isFirst => by simp at isFirst
  | cons head firsts inductionHypothesis =>
      cases seconds with
      | nil => exact fun _ _ _ register first second _ isSecond => by simp at isSecond
      | cons headToo seconds =>
          rw [mergeLocals_cons]
          refine Yields.bind fun merged middle ran => Yields.bind fun rest later ranRest =>
            Yields.pure ?_
          intro register first second isFirst isSecond
          cases register with
          | zero =>
              cases isFirst
              cases isSecond
              obtain ⟨result, after, built, ended⟩ := bind_eq_ok.1 ran
              obtain ⟨rfl, rfl⟩ := pure_eq_ok.1 ended
              exact ⟨result, table, after, rfl, built⟩
          | succ register =>
              exact inductionHypothesis seconds middle ranRest register first second
                isFirst isSecond

/-- The same over all frames. -/
theorem built_mergeFrames
    (firsts seconds : List Frame)
    (table : Table) :
    Yields (mergeFrames value firsts seconds) table fun merged _ =>
      ∀ (frame register : Nat) (first second : Expr),
        firsts[frame]?.bind (·.register? register) = some first →
          seconds[frame]?.bind (·.register? register) = some second →
            Expr.Built value first second (merged[frame]?.bind (·.register? register)) := by
  induction firsts generalizing seconds table with
  | nil => exact fun _ _ _ frame register first second isFirst => by simp at isFirst
  | cons head firsts inductionHypothesis =>
      cases seconds with
      | nil => exact fun _ _ _ frame register first second _ isSecond => by simp at isSecond
      | cons headToo seconds =>
          refine Yields.bind fun locals middle ran => Yields.bind fun rest later ranRest =>
            Yields.pure ?_
          intro frame register first second isFirst isSecond
          cases frame with
          | zero =>
              exact built_mergeLocals value head.locals headToo.locals table ran register
                first second isFirst isSecond
          | succ frame =>
              exact inductionHypothesis seconds middle ranRest frame register first second
                isFirst isSecond

end

namespace Execution

section

variable {execution : Execution} {place : Nat}

/-- What a state holds in its registers after it has taken another one in. -/
def Joins (receiver other merged : ExecState) : Prop :=
  ∃ guard, ∀ (frame register : Nat) (first second : Expr),
    receiver.register? frame register = some first →
      other.register? frame register = some second →
        Expr.Built (receiver.mergedValue other guard) first second
          (merged.register? frame register)

/-- After another state was taken in, the registers are built from those of the two states. -/
theorem joins_absorb
    (present : place < execution.states.size)
    (receiver other : ExecState)
    (overlap : Overlap)
    (mutated : List MemoryObject) :
    Yields (absorb place receiver other overlap mutated) execution fun _ later =>
      Joins receiver other (later.stateAt place) := by
  refine Yields.bind fun inReceiver first ranFirst =>
    Yields.bind fun inOther second ranSecond => Yields.bind fun stack third ranThird =>
      Yields.bind fun _ fourth ranFourth => ?_
  have unmoved : execution.Unmoved ExecState.stack third :=
    (((leaves_onHeap _ execution).of_ok ranFirst).1.trans
      ((leaves_onHeap _ first).of_ok ranSecond).1).trans
        ((leaves_onHeap _ second).of_ok ranThird).1
  have built := yields_build (fun table => built_mergeFrames
    (receiver.mergedValue other inReceiver) receiver.stack other.stack table) ranThird
  cases ranFourth
  intro _ later ran
  have stack_eq : (later.stateAt place).stack = stack := by
    have rest : Unmoved ExecState.stack
        (third.setState place { third.stateAt place with stack }) later :=
      ((leaves_absorbed (fun _ _ => rfl) place _ _ _ _).of_ok ran).1
    rw [rest.field_eq, stateAt_setState,
      if_pos ⟨rfl, Nat.lt_of_lt_of_le present unmoved.size_le⟩]
  refine ⟨inReceiver, ?_⟩
  unfold ExecState.register?
  rw [stack_eq]
  exact built

/-- A merge that is made joins the registers of the two states. -/
theorem joins_merge
    (present : place < execution.states.size)
    (otherPlace : Nat) :
    Yields (merge place otherPlace) execution fun answer later =>
      answer = true →
        Joins (execution.stateAt place) (execution.stateAt otherPlace)
          (later.stateAt place) := by
  intro answer later ran isTrue
  unfold merge at ran
  rw [get_bind, get_bind] at ran
  obtain ⟨_, traced, told, ran⟩ := bind_eq_ok.1 ran
  have unmoved : execution.Unmoved ExecState.stack traced :=
    ((leaves_trace _ _ execution).of_ok told).1
  split at ran
  next comparable =>
      obtain ⟨_, listed, toldList, ran⟩ := bind_eq_ok.1 ran
      rw [get_bind] at ran
      obtain ⟨outcome, compared, toldMemory, ran⟩ := bind_eq_ok.1 ran
      have unmovedToo : execution.Unmoved ExecState.stack compared :=
        (unmoved.trans ((leaves_traceOverlap _ _ traced).of_ok toldList).1).trans
          ((leaves_compareMemory _ _ _ listed).of_ok toldMemory).1
      cases outcome with
      | none =>
          obtain ⟨rfl, _⟩ := pure_eq_ok.1 ran
          cases isTrue
      | some mutated =>
          obtain ⟨_, absorbed, ranAbsorb, ran⟩ := bind_eq_ok.1 ran
          obtain ⟨_, ended, toldMerged, ran⟩ := bind_eq_ok.1 ran
          obtain ⟨_, rfl⟩ := pure_eq_ok.1 ran
          have unmovedLast : absorbed.Unmoved ExecState.stack ended :=
            ((leaves_traceMerged place absorbed).of_ok toldMerged).1
          have joins := joins_absorb (Nat.lt_of_lt_of_le present unmovedToo.size_le)
            _ _ _ _ ranAbsorb
          unfold Joins ExecState.register? at joins ⊢
          rw [unmovedLast.field_eq place]
          exact joins
  next =>
      obtain ⟨rfl, _⟩ := pure_eq_ok.1 ran
      cases isTrue

end

end Execution

/-! ## Splitting a choice between revisions -/

/-- Whatever the table holds, these are the pieces, and nothing new is built. -/
def Expr.SplitsInto (expression : Expr) (pieces : List Piece) : Prop :=
  ∀ table, expression.split table = .ok pieces table

/-- An expression of a single revision splits into itself. -/
theorem Expr.splitsInto_self
    {expression : Expr}
    (single : expression.multi = false) :
    expression.SplitsInto [(Revision.shared, expression)] := by
  intro table
  unfold Expr.split
  rw [if_pos single]
  rfl

/-- A revision select splits into the pieces of both branches, each under the number of its side. -/
theorem Expr.SplitsInto.revisions
    {tag : Tag}
    {truePatch falsePatch : Int}
    {guard first second : Expr}
    {firsts seconds : List Piece}
    (splits : first.SplitsInto firsts)
    (multi : tag.multi = true)
    (splitsToo : second.SplitsInto seconds) :
    (Expr.select tag (some (truePatch, falsePatch)) guard first second).SplitsInto
      (firsts.map (Piece.under truePatch) ++ seconds.map (Piece.under falsePatch)) := by
  intro table
  unfold Expr.split
  rw [if_neg (by simp [Expr.multi, Expr.tag, multi])]
  exact (bind_of_ok (splits table)).trans (bind_of_ok (splitsToo table))

/-- Values of states of two revisions become a choice between the revisions. -/
theorem ExecState.mergedValue_revisions
    {receiver other : ExecState}
    {truePatch falsePatch : Int}
    {guard first second : Expr}
    {table : Table}
    (runs : receiver.patch = some truePatch)
    (runsToo : other.patch = some falsePatch)
    (different : truePatch ≠ falsePatch)
    (apart : first.same second = false) :
    Yields (receiver.mergedValue other guard first second) table fun merged _ =>
      ∃ tag, merged = .select tag (some (truePatch, falsePatch)) guard first second ∧
        tag.multi = true := by
  intro merged later ran
  unfold ExecState.mergedValue at ran
  rw [if_neg (by simp [apart]), runs, runsToo,
    if_pos fun same => different (Option.some.inj same)] at ran
  obtain ⟨tag, rfl, _, _, multi⟩ := Build.selectNode_spec ran
  exact ⟨tag, rfl, by simp [multi]⟩

/-! ## Merging states of different revisions -/

namespace Execution

/--
A state holds a value in a register, and other states, each of another revision, hold
there values of one revision each, all different from it.
-/
structure Diverging
    (execution : Execution)
    (frame register : Nat)
    (revision : Nat → Int)
    (value : Nat → Expr)
    (receiver : Nat)
    (current : Expr)
    (others : List Nat) : Prop where
  present : receiver < execution.states.size
  patch_eq : (execution.stateAt receiver).patch = some (revision receiver)
  holds : (execution.stateAt receiver).register? frame register = some current
  numbered : ∀ place ∈ others,
    (execution.stateAt place).patch = some (revision place) ∧ revision receiver ≠ revision place
  defined : ∀ place ∈ others,
    (execution.stateAt place).register? frame register = some (value place)
  single : ∀ place ∈ others, (value place).multi = false
  apart : ∀ place ∈ others, current.same (value place) = false

section

variable
  {histories : List Updates}
  {execution later : Execution}
  {frame register : Nat}
  {revision : Nat → Int}
  {value : Nat → Expr}
  {receiver other : Nat}
  {current : Expr}
  {others : List Nat}

/-- What stands in a register was built. -/
theorem Sound.registered_register
    (sound : execution.Sound histories)
    {place : Nat}
    {expression : Expr}
    (holds : (execution.stateAt place).register? frame register = some expression) :
    expression.Registered histories execution.heap.table := by
  obtain ⟨there, isThere, found⟩ := Option.bind_eq_some_iff.1 holds
  have defined : there.locals[register]? = some (some expression) := by
    simpa [Frame.register?, Option.join_eq_some_iff] using found
  exact (sound.states place).registers there (List.mem_of_getElem? isThere) expression
    (List.mem_of_getElem? defined)

/-- After a merge the receiver holds a choice, and stands to the others as before. -/
theorem Diverging.merge
    (sound : execution.Sound histories)
    (diverging : execution.Diverging frame register revision value receiver current
      (other :: others))
    (ran : merge receiver other execution = .ok true later) :
    later.Sound histories ∧
      ∃ tag guard, tag.multi = true ∧
        later.Diverging frame register revision value receiver
          (.select tag (some (revision receiver, revision other)) guard current (value other))
          others := by
  have soundLater : later.Sound histories :=
    ((moves_merge sound diverging.present other False.elim).of_ok ran).1.sound
  have kept : execution.Unmoved ExecState.patch later :=
    ((leaves_merge (fun _ _ => rfl) (fun _ _ => rfl) receiver other execution).of_ok ran).1
  have stays (place : Nat) (isOther : place ∈ others) :
      later.stateAt place = execution.stateAt place := by
    have numbered := diverging.numbered place (List.mem_cons_of_mem _ isOther)
    have confines := confines_merge sound.heap.owned receiver other
    unfold final at confines
    rw [ran] at confines
    exact confines.stateAt_eq place fun same => numbered.2 (congrArg revision same.symm)
  obtain ⟨patchOther, different⟩ := diverging.numbered other List.mem_cons_self
  obtain ⟨guard, joined⟩ := joins_merge diverging.present other ran rfl
  obtain ⟨merged, before, after, holds, built⟩ := joined frame register current (value other)
    diverging.holds (diverging.defined other List.mem_cons_self)
  obtain ⟨tag, rfl, multi⟩ := ExecState.mergedValue_revisions diverging.patch_eq patchOther
    different (diverging.apart other List.mem_cons_self) built
  refine ⟨soundLater, tag, guard, multi, ?_⟩
  have defined (place : Nat) (isOther : place ∈ others) :
      (later.stateAt place).register? frame register = some (value place) := by
    rw [stays place isOther]
    exact diverging.defined place (List.mem_cons_of_mem _ isOther)
  constructor
  · exact Nat.lt_of_lt_of_le diverging.present kept.size_le
  · exact (kept.field_eq receiver).trans diverging.patch_eq
  · exact holds
  · intro place isOther
    rw [stays place isOther]
    exact diverging.numbered place (List.mem_cons_of_mem _ isOther)
  · exact defined
  · exact fun place isOther => diverging.single place (List.mem_cons_of_mem _ isOther)
  · -- The choice is multi and no value of another state is.
    intro place isOther
    refine Bool.eq_false_iff.2 fun same => ?_
    have equal := Expr.Registered.eq_of_same soundLater.heap.supports
      (soundLater.registered_register holds)
      (soundLater.registered_register (defined place isOther)) same
    have single := diverging.single place (List.mem_cons_of_mem _ isOther)
    rw [← equal] at single
    exact Bool.false_ne_true (single.symm.trans multi)

/-- The pieces of a register after another state was taken in. -/
def taken (revision : Nat → Int) (value : Nat → Expr) (receiver : Nat) (pieces : List Piece)
    (other : Nat) : List Piece :=
  pieces.map (Piece.under (revision receiver)) ++ [(revision other, value other)]

/-- What the register of the receiver can be split into when all merges are made. -/
theorem Diverging.splitsInto_mergeAll
    {pieces : List Piece}
    {answers : List Bool}
    (sound : execution.Sound histories)
    (diverging : execution.Diverging frame register revision value receiver current others)
    (splits : current.SplitsInto pieces)
    (ran : mergeAll (others.map fun other => (receiver, other)) execution = .ok answers later)
    (allMade : ∀ answer ∈ answers, answer = true) :
    ∃ merged, (later.stateAt receiver).register? frame register = some merged ∧
      merged.SplitsInto (others.foldl (taken revision value receiver) pieces) := by
  unfold mergeAll at ran
  induction others generalizing execution current pieces answers with
  | nil =>
      obtain ⟨_, rfl⟩ := pure_eq_ok.1 ran
      exact ⟨current, diverging.holds, splits⟩
  | cons other others inductionHypothesis =>
      rw [List.map_cons, List.mapM_cons] at ran
      obtain ⟨answer, middle, ranFirst, ran⟩ := bind_eq_ok.1 ran
      obtain ⟨rest, ended, ranRest, ran⟩ := bind_eq_ok.1 ran
      obtain ⟨rfl, rfl⟩ := pure_eq_ok.1 ran
      rw [List.forall_mem_cons] at allMade
      obtain ⟨rfl, restMade⟩ := allMade
      obtain ⟨soundMiddle, tag, guard, multi, divergingMiddle⟩ :=
        diverging.merge sound ranFirst
      refine inductionHypothesis soundMiddle divergingMiddle ?_ ranRest restMade
      have single := Expr.splitsInto_self (diverging.single other List.mem_cons_self)
      have numbered : [(Revision.shared, value other)].map (Piece.under (revision other)) =
          [(revision other, value other)] := by
        simp [Piece.under]
      unfold taken
      rw [← numbered]
      exact splits.revisions multi single

/-- All values stay in their order. -/
theorem map_snd_foldl_taken
    (pieces : List Piece)
    (others : List Nat) :
    (others.foldl (taken revision value receiver) pieces).map Prod.snd =
      pieces.map Prod.snd ++ others.map value := by
  induction others generalizing pieces with
  | nil => simp
  | cons other others inductionHypothesis =>
      rw [List.foldl_cons, inductionHypothesis]
      simp [taken, Piece.under, Function.comp_def]

/-- All but the state that was taken in last have become pieces of the receiver. -/
theorem foldl_taken
    {last : Nat}
    (real : Revision.isReal (revision receiver) = true)
    (middle : List Nat) :
    (middle ++ [last]).foldl (taken revision value receiver)
        [(Revision.shared, value receiver)] =
      ((receiver :: middle).map fun place => (revision receiver, value place)) ++
        [(revision last, value last)] := by
  have renumbered (pieces : List Piece) : taken revision value receiver pieces last =
      ((pieces.map Prod.snd).map fun expression => (revision receiver, expression)) ++
        [(revision last, value last)] := by
    simp [taken, Piece.under, Revision.pick_of_isReal real, Function.comp_def]
  rw [List.foldl_append, List.foldl_cons, List.foldl_nil, renumbered, map_snd_foldl_taken]
  simp

end

/--
States that run different real revisions and hold, in one register, different values of
one revision each.
-/
structure Diverse
    (execution : Execution)
    (frame register : Nat)
    (revision : Nat → Int)
    (value : Nat → Expr)
    (places : List Nat) : Prop where
  numbered : ∀ place ∈ places, (execution.stateAt place).patch = some (revision place)
  real : ∀ place ∈ places, Revision.isReal (revision place) = true
  distinct : places.Pairwise fun one other => revision one ≠ revision other
  defined : ∀ place ∈ places,
    (execution.stateAt place).register? frame register = some (value place)
  single : ∀ place ∈ places, (value place).multi = false
  apart : places.Pairwise fun one other => (value one).same (value other) = false

section

variable
  {execution : Execution}
  {frame register : Nat}
  {revision : Nat → Int}
  {value : Nat → Expr}

/-- A family of different revisions diverges from any of its members. -/
theorem Diverse.diverging
    {receiver : Nat}
    {others : List Nat}
    (diverse : execution.Diverse frame register revision value (receiver :: others)) :
    execution.Diverging frame register revision value receiver (value receiver) others := by
  have holds := diverse.defined receiver List.mem_cons_self
  constructor
  · by_contra outside
    rw [stateAt, Array.getD_eq_getD_getElem?, Array.getElem?_eq_none (Nat.le_of_not_lt outside)]
      at holds
    cases holds
  · exact diverse.numbered receiver List.mem_cons_self
  · exact holds
  · intro place isOther
    exact ⟨diverse.numbered place (List.mem_cons_of_mem _ isOther),
      (List.pairwise_cons.1 diverse.distinct).1 place isOther⟩
  · exact fun place isOther => diverse.defined place (List.mem_cons_of_mem _ isOther)
  · exact fun place isOther => diverse.single place (List.mem_cons_of_mem _ isOther)
  · exact (List.pairwise_cons.1 diverse.apart).1

end

/-- Which revisions are listed as such, if all but the last are listed as the first. -/
theorem mem_recovered_iff
    {revision : Nat → Int}
    {value : Nat → Expr}
    {first last place : Nat}
    {middle : List Nat}
    (distinct : (first :: (middle ++ [last])).Pairwise fun one other =>
      revision one ≠ revision other)
    (listed : place ∈ first :: (middle ++ [last])) :
    (revision place, value place) ∈
        ((first :: middle).map fun other => (revision first, value other)) ++
          [(revision last, value last)] ↔ place ∉ middle := by
  obtain ⟨fromFirst, others⟩ := List.pairwise_cons.1 distinct
  obtain ⟨_, _, fromLast⟩ := List.pairwise_append.1 others
  constructor
  · intro recovered between
    rcases List.mem_append.1 recovered with asFirst | asLast
    · obtain ⟨other, _, same⟩ := List.mem_map.1 asFirst
      exact fromFirst place (List.mem_append_left _ between) (congrArg Prod.fst same)
    · exact fromLast place between last (List.mem_singleton_self last)
        (congrArg Prod.fst (List.mem_singleton.1 asLast))
  · intro notBetween
    rcases List.mem_cons.1 listed with rfl | later
    · exact List.mem_append_left _ List.mem_cons_self
    · rcases List.mem_append.1 later with between | isLast
      · exact absurd between notBetween
      · rw [List.mem_singleton.1 isLast]
        exact List.mem_append_right _ (List.mem_singleton_self _)

/--
States of different revisions are merged into the first, one after another.  What the
register becomes splits into all their values, in order; the last one under its revision
and all others under the revision of the first.  So a revision is recovered if and only if
it is not one of those in between; of two revisions, both are.
-/
theorem split_mergeAll
    {system : System}
    (attained : system.Attainable)
    {frame register : Nat}
    {revision : Nat → Int}
    {value : Nat → Expr}
    {first last : Nat}
    {middle : List Nat}
    (diverse : system.execution.Diverse frame register revision value
      (first :: (middle ++ [last])))
    {answers : List Bool}
    {later : Execution}
    (ran : mergeAll ((middle ++ [last]).map fun place => (first, place)) system.execution =
      .ok answers later)
    (allMade : ∀ answer ∈ answers, answer = true) :
    ∃ merged pieces,
      (later.stateAt first).register? frame register = some merged ∧
        (∀ table, merged.split table = .ok pieces table) ∧
          pieces = ((first :: middle).map fun place => (revision first, value place)) ++
            [(revision last, value last)] ∧
          ∀ place ∈ first :: (middle ++ [last]),
            ((revision place, value place) ∈ pieces ↔ place ∉ middle) := by
  have real := diverse.real first List.mem_cons_self
  obtain ⟨merged, holds, splits⟩ := diverse.diverging.splitsInto_mergeAll attained.sound.execution
    (Expr.splitsInto_self (diverse.single first List.mem_cons_self)) ran allMade
  rw [foldl_taken real] at splits
  exact ⟨merged, _, holds, splits, rfl, fun place listed =>
    mem_recovered_iff diverse.distinct listed⟩

end Execution

namespace ThreeRevisions

open ForkedPath (workshop reachable_workshop function zero five input index isZero notZero)

/-- A state and two forks of it, which run other revisions from then on. -/
def system : System :=
  [.act (.create function (some 1) {}), .act (.fork 0), .act (.fork 0), .renumber 1 (some 2),
    .renumber 2 (some 3), .act (.assign 0 0 0 (some zero)), .act (.assign 1 0 0 (some five)),
    .act (.assign 2 0 0 (some input)), .act (.constrain 0 isZero),
    .act (.constrain 1 notZero)].foldl System.undergo (System.equip {} workshop)

def revision (place : Nat) : Int := place + 1

def value : Nat → Expr
  | 0 => zero
  | 1 => five
  | _ => input

theorem attainable : system.Attainable := by
  refine System.Attainable.foldl_undergo
    (System.Reachable.equip reachable_workshop).attainable ?_ (by decide +kernel)
  have atHand : (System.equip {} workshop).expressions =
    [notZero, isZero, five, zero, input, index] := rfl
  rw [atHand]
  simp [Event.uses, Action.uses]

set_option maxRecDepth 2000 in
theorem diverse : system.execution.Diverse 0 0 revision value (0 :: ([1] ++ [2])) where
  numbered := by decide +kernel
  real := by decide +kernel
  distinct := by decide +kernel
  defined := by
    have holds :
        (system.execution.stateAt 0).register? 0 0 = some zero ∧
          (system.execution.stateAt 1).register? 0 0 = some five ∧
            (system.execution.stateAt 2).register? 0 0 = some input :=
      ⟨rfl, rfl, rfl⟩
    simpa [value] using holds
  single := by decide +kernel
  apart := by decide +kernel

end ThreeRevisions

open Execution ThreeRevisions ForkedPath in
/-- The second of three revisions is listed as if it were the first. -/
theorem split_mergeAll_threeRevisions :
    ∃ later merged,
      mergeAll [(0, 1), (0, 2)] ThreeRevisions.system.execution = .ok [true, true] later ∧
        (later.stateAt 0).register? 0 0 = some merged ∧
          merged.split later.heap.table =
              .ok [(1, zero), (1, five), (3, input)] later.heap.table ∧
            ¬ (2, five) ∈ [((1 : Int), zero), (1, five), (3, input)] := by
  have answered : (match mergeAll [(0, 1), (0, 2)] ThreeRevisions.system.execution with
      | .ok answers _ => decide (answers = [true, true])
      | .error _ _ => false) = true := by decide +kernel
  cases ran : mergeAll [(0, 1), (0, 2)] ThreeRevisions.system.execution with
  | error fault later =>
      rw [ran] at answered
      exact (Bool.false_ne_true answered).elim
  | ok answers later =>
      rw [ran] at answered
      obtain rfl := of_decide_eq_true answered
      obtain ⟨merged, pieces, holds, splits, rfl, recovered⟩ :=
        split_mergeAll attainable diverse ran (by simp)
      exact ⟨later, merged, rfl, holds, splits _, fun second =>
        (recovered 1 (by simp)).1 second List.mem_cons_self⟩

end Diverge
