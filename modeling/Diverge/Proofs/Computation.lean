import Diverge.Fault

/-!
# Computations that change a state and may fail

Building, memory and execution all run in `EStateM`: a computation ends with a
result or with a fault, and in either case in a state.  The equations `..._eq_ok`
take a computation that ended with a result apart, and `Yields` speaks about such
ends alone.  `Moves` speaks about both ends at once: the state moves along a
transitive relation whatever happens, and if there is a result, it satisfies a
condition.  It may also say when there is a result.  `Ends` gives a condition for the
result and another for the fault.
-/

namespace Diverge

namespace Stateful

variable {ε σ α β : Type}

/-! ## Computations that end with a result -/

@[simp]
theorem pure_eq_ok
    {value result : α}
    {start final : σ} :
    (pure value : EStateM ε σ α) start = .ok result final ↔
      value = result ∧ start = final := by
  constructor
  · intro ended
    cases ended
    exact ⟨rfl, rfl⟩
  · rintro ⟨rfl, rfl⟩
    rfl

@[simp]
theorem throw_ne_ok
    {fault : ε}
    {result : α}
    {start final : σ} :
    (throw fault : EStateM ε σ α) start ≠ .ok result final := by
  intro ended
  cases ended

/-- A sequence ends well if both of its parts do, the second from where the first ended. -/
theorem bind_eq_ok
    {action : EStateM ε σ α}
    {next : α → EStateM ε σ β}
    {start final : σ}
    {result : β} :
    (action >>= next) start = .ok result final ↔
      ∃ value middle,
        action start = .ok value middle ∧
          next value middle = .ok result final := by
  show EStateM.bind action next start = _ ↔ _
  unfold EStateM.bind
  cases action start with
  | ok value middle =>
      constructor
      · intro ended
        exact ⟨value, middle, rfl, ended⟩
      · rintro ⟨_, _, same, ended⟩
        cases same
        exact ended
  | error fault middle => simp

theorem bind_of_ok
    {action : EStateM ε σ α}
    {next : α → EStateM ε σ β}
    {start middle : σ}
    {value : α}
    (ran : action start = .ok value middle) :
    (action >>= next) start = next value middle := by
  show EStateM.bind action next start = _
  simp only [EStateM.bind, ran]

theorem bind_of_error
    {action : EStateM ε σ α}
    {next : α → EStateM ε σ β}
    {start middle : σ}
    {fault : ε}
    (ran : action start = .error fault middle) :
    (action >>= next) start = .error fault middle := by
  show EStateM.bind action next start = _
  simp only [EStateM.bind, ran]

theorem ofExcept_eq_ok
    {outcome : Except ε α}
    {start final : σ}
    {result : α} :
    (ofExcept outcome : EStateM ε σ α) start = .ok result final ↔
      outcome = .ok result ∧ start = final := by
  cases outcome with
  | ok value =>
      rw [show (ofExcept (.ok value) : EStateM ε σ α) = pure value from rfl,
        pure_eq_ok, Except.ok.injEq]
  | error fault =>
      rw [show (ofExcept (.error fault) : EStateM ε σ α) = throw fault from rfl]
      simp

/-- The same without a state. -/
theorem except_bind_eq_ok
    {outcome : Except ε α}
    {next : α → Except ε β}
    {result : β} :
    (outcome >>= next) = .ok result ↔
      ∃ value, outcome = .ok value ∧ next value = .ok result := by
  cases outcome with
  | ok value =>
      constructor
      · intro ended
        exact ⟨value, rfl, ended⟩
      · rintro ⟨_, same, ended⟩
        cases same
        exact ended
  | error fault =>
      constructor
      · intro ended
        cases ended
      · rintro ⟨_, same, _⟩
        cases same

theorem get_bind
    {next : σ → EStateM ε σ β}
    {start : σ} :
    (get >>= next) start = next start start := rfl

/-- If the computation ends with a result, the result satisfies `after`. -/
def Yields
    (action : EStateM ε σ α)
    (start : σ)
    (after : α → σ → Prop) : Prop :=
  ∀ ⦃result final⦄, action start = .ok result final → after result final

theorem Yields.pure
    {value : α}
    {start : σ}
    {after : α → σ → Prop}
    (holds : after value start) :
    Yields (pure value : EStateM ε σ α) start after := by
  intro result final ran
  obtain ⟨rfl, rfl⟩ := pure_eq_ok.1 ran
  exact holds

theorem Yields.throw
    {fault : ε}
    {start : σ}
    {after : α → σ → Prop} :
    Yields (throw fault : EStateM ε σ α) start after :=
  fun _ _ ran => absurd ran throw_ne_ok

/-- What the second part yields from wherever the first may end is what the sequence yields. -/
theorem Yields.bind
    {action : EStateM ε σ α}
    {next : α → EStateM ε σ β}
    {start : σ}
    {after : β → σ → Prop}
    (first : Yields action start fun value middle =>
      Yields (next value) middle after) :
    Yields (action >>= next) start after := by
  intro result final ran
  obtain ⟨value, middle, ranFirst, ranSecond⟩ := bind_eq_ok.1 ran
  exact first ranFirst ranSecond

theorem Yields.ofExcept
    {outcome : Except ε α}
    {start : σ}
    {after : α → σ → Prop}
    (holds : ∀ result, outcome = .ok result → after result start) :
    Yields (ofExcept outcome : EStateM ε σ α) start after := by
  intro result final ran
  obtain ⟨same, rfl⟩ := ofExcept_eq_ok.1 ran
  exact holds result same

theorem Yields.get_bind
    {next : σ → EStateM ε σ β}
    {start : σ}
    {after : β → σ → Prop}
    (rest : Yields (next start) start after) :
    Yields (get >>= next) start after :=
  rest

theorem Yields.modify
    {change : σ → σ}
    {start : σ}
    {after : Unit → σ → Prop}
    (holds : after () (change start)) :
    Yields (modify change : EStateM ε σ Unit) start after := by
  intro _ _ ran
  cases ran
  exact holds

/-- The computation ends with a result. -/
def Succeeds (action : EStateM ε σ α) (start : σ) : Prop :=
  ∃ result final, action start = .ok result final

/-- Whether a computation has a result can be seen by running it. -/
theorem succeeds_of_run'
    {action : EStateM ε σ α}
    {start : σ}
    (ended : (action.run' start).isSome = true) :
    Succeeds action start := by
  unfold EStateM.run' EStateM.run at ended
  cases ran : action start with
  | ok result final => exact ⟨result, final, ran⟩
  | error fault final => simp [ran] at ended

theorem Succeeds.pure
    (value : α)
    (start : σ) :
    Succeeds (pure value : EStateM ε σ α) start :=
  ⟨value, start, rfl⟩

/-- A sequence succeeds if its second part does from wherever the first ends. -/
theorem Succeeds.bind
    {action : EStateM ε σ α}
    {next : α → EStateM ε σ β}
    {start : σ}
    (first : Succeeds action start)
    (rest : ∀ value middle, action start = .ok value middle →
      Succeeds (next value) middle) :
    Succeeds (action >>= next) start := by
  obtain ⟨value, middle, ran⟩ := first
  obtain ⟨result, final, ranRest⟩ := rest value middle ran
  exact ⟨result, final, (bind_of_ok ran).trans ranRest⟩

/-- The computation ends with a result, which satisfies `after`. -/
def Returns
    (action : EStateM ε σ α)
    (start : σ)
    (after : α → σ → Prop) : Prop :=
  Succeeds action start ∧ Yields action start after

theorem Returns.pure
    {value : α}
    {start : σ}
    {after : α → σ → Prop}
    (holds : after value start) :
    Returns (pure value : EStateM ε σ α) start after :=
  ⟨Succeeds.pure value start, Yields.pure holds⟩

/-- The rule of sequence for computations that succeed and satisfy something afterwards. -/
theorem Returns.bind
    {action : EStateM ε σ α}
    {next : α → EStateM ε σ β}
    {start : σ}
    {after : β → σ → Prop}
    (first : Returns action start fun value middle => Returns (next value) middle after) :
    Returns (action >>= next) start after := by
  constructor
  · exact first.1.bind fun value middle ran => (first.2 ran).1
  · exact Yields.bind fun value middle ran => (first.2 ran).2

theorem Returns.bind_of_ok
    {action : EStateM ε σ α}
    {next : α → EStateM ε σ β}
    {start middle : σ}
    {value : α}
    {after : β → σ → Prop}
    (ran : action start = .ok value middle)
    (rest : Returns (next value) middle after) :
    Returns (action >>= next) start after := by
  unfold Returns Succeeds Yields
  rw [Stateful.bind_of_ok ran]
  exact rest

theorem Returns.mono
    {action : EStateM ε σ α}
    {start : σ}
    {after weaker : α → σ → Prop}
    (returns : Returns action start after)
    (implies : ∀ result state, after result state → weaker result state) :
    Returns action start weaker :=
  ⟨returns.1, fun result state ran => implies result state (returns.2 ran)⟩

theorem Returns.ofExcept
    {outcome : Except ε α}
    {start : σ}
    {after : α → σ → Prop}
    {result : α}
    (ended : outcome = .ok result)
    (holds : after result start) :
    Returns (ofExcept outcome : EStateM ε σ α) start after := by
  rw [ended]
  exact Returns.pure holds

/-- What every element of a list is used for ends, and keeps an invariant. -/
theorem Returns.forM
    {action : α → EStateM ε σ Unit}
    {invariant : σ → Prop}
    {start : σ}
    (elements : List α)
    (each : ∀ element ∈ elements, ∀ state, invariant state →
      Returns (action element) state fun _ => invariant)
    (initial : invariant start) :
    Returns (elements.forM action) start fun _ => invariant := by
  induction elements generalizing start with
  | nil => exact Returns.pure initial
  | cons element rest inductionHypothesis =>
      apply Returns.bind
      refine (each element List.mem_cons_self start initial).mono ?_
      intro _ middle holds
      exact inductionHypothesis
        (fun other member => each other (List.mem_cons_of_mem _ member)) holds

/-! ## Both ends at once -/

/-- The state in which a computation ends, be it with a result or with a fault. -/
def final (action : EStateM ε σ α) (start : σ) : σ :=
  match action start with
  | .ok _ state => state
  | .error _ state => state

/--
From `start` the state moves along a relation, and a result satisfies `after`
together with the state it comes with.  If it is `safe`, there is no fault.
-/
def Moves
    (along : σ → σ → Prop)
    (action : EStateM ε σ α)
    (start : σ)
    (after : α → σ → Prop)
    (safe : Prop := False) : Prop :=
  match action start with
  | .ok result state => along start state ∧ after result state
  | .error _ state => along start state ∧ ¬ safe

variable {along : σ → σ → Prop} {start : σ} {safe : Prop}

theorem Moves.final
    {action : EStateM ε σ α}
    {after : α → σ → Prop}
    (moves : Moves along action start after safe) :
    along start (Stateful.final action start) := by
  unfold Moves at moves
  unfold Stateful.final
  cases ran : action start with
  | ok result state =>
      rw [ran] at moves
      exact moves.1
  | error fault state =>
      rw [ran] at moves
      exact moves.1

/-- A move that ends well has gone along the relation and satisfies what is promised. -/
theorem Moves.of_ok
    {action : EStateM ε σ α}
    {after : α → σ → Prop}
    (moves : Moves along action start after safe)
    {result : α}
    {state : σ}
    (ran : action start = .ok result state) :
    along start state ∧ after result state := by
  unfold Moves at moves
  rw [ran] at moves
  exact moves

theorem Moves.succeeds
    {action : EStateM ε σ α}
    {after : α → σ → Prop}
    (moves : Moves along action start after safe)
    (isSafe : safe) :
    Succeeds action start := by
  unfold Moves at moves
  cases ran : action start with
  | ok result state => exact ⟨result, state, ran⟩
  | error fault state =>
      rw [ran] at moves
      exact (moves.2 isSafe).elim

/-- What is promised of a move may be weakened, knowing where it went. -/
theorem Moves.mono
    {action : EStateM ε σ α}
    {after weaker : α → σ → Prop}
    (moves : Moves along action start after safe)
    (implies : ∀ result state, along start state → after result state →
      weaker result state) :
    Moves along action start weaker safe := by
  unfold Moves at moves ⊢
  cases ran : action start with
  | ok result state =>
      rw [ran] at moves
      exact ⟨moves.1, implies result state moves.1 moves.2⟩
  | error fault state =>
      rw [ran] at moves
      exact moves

theorem Moves.pure
    {value : α}
    {after : α → σ → Prop}
    (stays : along start start)
    (holds : after value start) :
    Moves along (pure value : EStateM ε σ α) start after safe :=
  ⟨stays, holds⟩

theorem Moves.throw
    {fault : ε}
    {after : α → σ → Prop}
    (stays : along start start)
    (fails : ¬ safe) :
    Moves along (throw fault : EStateM ε σ α) start after safe :=
  ⟨stays, fails⟩

/--
An outcome that does not look at the state is a move that stays, and a safe one if it is there.
-/
theorem Moves.ofExcept_of_total
    {outcome : Except ε α}
    {after : α → σ → Prop}
    (stays : along start start)
    (total : safe → ∃ result, outcome = .ok result)
    (holds : ∀ result, outcome = .ok result → after result start) :
    Moves along (ofExcept outcome : EStateM ε σ α) start after safe := by
  cases outcome with
  | ok value => exact ⟨stays, holds value rfl⟩
  | error fault =>
      refine ⟨stays, fun isSafe => ?_⟩
      obtain ⟨_, ended⟩ := total isSafe
      cases ended

theorem Moves.ofExcept
    {outcome : Except ε α}
    {after : α → σ → Prop}
    (stays : along start start)
    (holds : ∀ result, outcome = .ok result → after result start) :
    Moves along (ofExcept outcome : EStateM ε σ α) start after :=
  Moves.ofExcept_of_total stays False.elim holds

theorem Moves.modify
    {change : σ → σ}
    {after : Unit → σ → Prop}
    (moves : along start (change start))
    (holds : after () (change start)) :
    Moves along (modify change : EStateM ε σ Unit) start after safe :=
  ⟨moves, holds⟩

/--
Moves compose along a transitive relation.  A first part that fails ends the move there, and
that is along the relation too.
-/
theorem Moves.bind
    (transitive : ∀ ⦃first second third : σ⦄,
      along first second → along second third → along first third)
    {action : EStateM ε σ α}
    {next : α → EStateM ε σ β}
    {after : β → σ → Prop}
    (moves : Moves along action start
      (fun value middle => Moves along (next value) middle after safe) safe) :
    Moves along (action >>= next) start after safe := by
  unfold Moves at moves
  cases ran : action start with
  | error fault middle =>
      rw [ran] at moves
      unfold Moves
      rw [bind_of_error ran]
      exact moves
  | ok value middle =>
      rw [ran] at moves
      obtain ⟨first, rest⟩ := moves
      unfold Moves
      rw [bind_of_ok ran]
      cases later : next value middle with
      | ok result state =>
          rw [later] at rest
          exact ⟨transitive first rest.1, rest.2⟩
      | error fault state =>
          rw [later] at rest
          exact ⟨transitive first rest.1, rest.2⟩

/-- What every element of a list is used for keeps to the relation, and an invariant. -/
theorem Moves.forM
    (transitive : ∀ ⦃first second third : σ⦄,
      along first second → along second third → along first third)
    {action : α → EStateM ε σ Unit}
    {invariant : σ → Prop}
    (stays : ∀ state, invariant state → along state state)
    (elements : List α)
    (each : ∀ element ∈ elements, ∀ state, invariant state →
      Moves along (action element) state (fun _ => invariant) safe)
    (initial : invariant start) :
    Moves along (elements.forM action) start (fun _ => invariant) safe := by
  induction elements generalizing start with
  | nil => exact Moves.pure (stays start initial) initial
  | cons element rest inductionHypothesis =>
      rw [show (element :: rest).forM action =
        (action element >>= fun _ => rest.forM action) from rfl]
      refine Moves.bind transitive ?_
      refine (each element List.mem_cons_self start initial).mono ?_
      intro _ middle _ holds
      exact inductionHypothesis
        (fun other member => each other (List.mem_cons_of_mem _ member)) holds

/-! ## What stays as it was -/

/-- However a computation ends, what is seen of the state is as it was. -/
def Stays {ν : Type} (view : σ → ν) (action : EStateM ε σ α) (start : σ) : Prop :=
  view (final action start) = view start

section

variable {ν : Type} {view : σ → ν}

theorem Stays.pure
    (value : α) :
    Stays view (pure value : EStateM ε σ α) start :=
  rfl

theorem Stays.throw
    (fault : ε) :
    Stays view (throw fault : EStateM ε σ α) start :=
  rfl

theorem Stays.ofExcept
    (outcome : Except ε α) :
    Stays view (ofExcept outcome : EStateM ε σ α) start := by
  cases outcome with
  | ok value => rfl
  | error fault => rfl

theorem Stays.modify
    {change : σ → σ}
    (same : view (change start) = view start) :
    Stays view (modify change : EStateM ε σ Unit) start :=
  same

theorem Stays.of_ok
    {action : EStateM ε σ α}
    {result : α}
    {state : σ}
    (stays : Stays view action start)
    (ran : action start = .ok result state) :
    view state = view start := by
  unfold Stays Stateful.final at stays
  rw [ran] at stays
  exact stays

theorem Stays.get_bind
    {next : σ → EStateM ε σ β}
    (rest : Stays view (next start) start) :
    Stays view (get >>= next) start :=
  rest

/-- A sequence leaves a view of the state alone if both parts do. -/
theorem Stays.bind
    {action : EStateM ε σ α}
    {next : α → EStateM ε σ β}
    (first : Stays view action start)
    (rest : ∀ value middle, action start = .ok value middle → view middle = view start →
      Stays view (next value) middle) :
    Stays view (action >>= next) start := by
  unfold Stays Stateful.final at first ⊢
  cases ran : action start with
  | ok value middle =>
      rw [ran] at first
      rw [bind_of_ok ran]
      exact (rest value middle ran first).trans first
  | error fault middle =>
      rw [ran] at first
      rw [bind_of_error ran]
      exact first

/-- What comes last and leaves the view does not count. -/
theorem Stays.view_final_bind
    {action : EStateM ε σ α}
    {next : α → EStateM ε σ β}
    (rest : ∀ value middle, Stays view (next value) middle) :
    view (Stateful.final (action >>= next) start) = view (Stateful.final action start) := by
  unfold Stateful.final
  cases ran : action start with
  | ok value middle =>
      rw [bind_of_ok ran]
      exact rest value middle
  | error fault middle => rw [bind_of_error ran]

/-- So does a loop each of whose steps does. -/
theorem Stays.forM
    {action : α → EStateM ε σ Unit}
    (elements : List α)
    (each : ∀ element ∈ elements, ∀ state, view state = view start →
      Stays view (action element) state) :
    Stays view (elements.forM action) start := by
  induction elements generalizing start with
  | nil => exact Stays.pure ()
  | cons element rest inductionHypothesis =>
      apply Stays.bind (each element List.mem_cons_self start rfl)
      intro _ middle _ same
      apply inductionHypothesis
      intro other member state sameToo
      exact each other (List.mem_cons_of_mem _ member) state (sameToo.trans same)

end

/-! ## Results and faults -/

/-- A result satisfies `after` together with the state it comes with, and a fault `failing`. -/
def Ends
    (action : EStateM ε σ α)
    (start : σ)
    (after : α → σ → Prop)
    (failing : ε → Prop) : Prop :=
  match action start with
  | .ok result state => after result state
  | .error fault _ => failing fault

section

variable {after : α → σ → Prop} {failing : ε → Prop}

theorem Ends.pure
    {value : α}
    (holds : after value start) :
    Ends (pure value : EStateM ε σ α) start after failing :=
  holds

theorem Ends.modify
    {change : σ → σ}
    {after : Unit → σ → Prop}
    (holds : after () (change start)) :
    Ends (modify change : EStateM ε σ Unit) start after failing :=
  holds

theorem Ends.ofExcept
    {outcome : Except ε α}
    (holds : ∀ result, outcome = .ok result → after result start)
    (fails : ∀ fault, outcome = .error fault → failing fault) :
    Ends (ofExcept outcome : EStateM ε σ α) start after failing := by
  cases outcome with
  | ok value => exact holds value rfl
  | error fault => exact fails fault rfl

theorem Ends.get_bind
    {next : σ → EStateM ε σ α}
    (rest : Ends (next start) start after failing) :
    Ends (get >>= next) start after failing :=
  rest

/-- A sequence ends well or with one of the named faults if both of its parts do. -/
theorem Ends.bind
    {action : EStateM ε σ β}
    {next : β → EStateM ε σ α}
    (first : Ends action start (fun value middle => Ends (next value) middle after failing)
      failing) :
    Ends (action >>= next) start after failing := by
  unfold Ends at first
  cases ran : action start with
  | ok value middle =>
      rw [ran] at first
      unfold Ends
      rw [bind_of_ok ran]
      exact first
  | error fault middle =>
      rw [ran] at first
      unfold Ends
      rw [bind_of_error ran]
      exact first

theorem Ends.mono
    {action : EStateM ε σ α}
    {weaker : α → σ → Prop}
    {failingToo : ε → Prop}
    (ends : Ends action start after failing)
    (implies : ∀ result state, after result state → weaker result state)
    (impliesToo : ∀ fault, failing fault → failingToo fault) :
    Ends action start weaker failingToo := by
  unfold Ends at ends ⊢
  cases ran : action start with
  | ok result state =>
      rw [ran] at ends
      exact implies result state ends
  | error fault state =>
      rw [ran] at ends
      exact impliesToo fault ends

/-- If none of the named faults is possible, the computation ends well. -/
theorem Ends.exists_ok
    {action : EStateM ε σ α}
    (ends : Ends action start after failing)
    (never : ∀ fault, ¬ failing fault) :
    ∃ result state, action start = .ok result state ∧ after result state := by
  unfold Ends at ends
  cases ran : action start with
  | ok result state =>
      rw [ran] at ends
      exact ⟨result, state, rfl, ends⟩
  | error fault state =>
      rw [ran] at ends
      exact absurd ends (never fault)

/-- If nothing could hold after a good end, the computation ends with one of the named faults. -/
theorem Ends.exists_error
    {action : EStateM ε σ α}
    (ends : Ends action start after failing)
    (never : ∀ result state, ¬ after result state) :
    ∃ fault state, action start = .error fault state ∧ failing fault := by
  unfold Ends at ends
  cases ran : action start with
  | ok result state =>
      rw [ran] at ends
      exact absurd ends (never result state)
  | error fault state =>
      rw [ran] at ends
      exact ⟨fault, state, rfl, ends⟩

end

end Stateful

end Diverge
