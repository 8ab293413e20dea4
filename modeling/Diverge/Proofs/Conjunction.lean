import Diverge.Proofs.Guards
import Diverge.Proofs.Expr.Reduced

/-!
# Adding a constraint is conjunction

Of all bits that were built only the constant false has a false conjunct, since no
constant stands below a conjunction.  So adding a constraint either is refused and changes
nothing, or appends the conjuncts that were not there, each once, and the set then means
the conjunction of what it meant before and the constraint (`Workshop.add_exact`).
-/

namespace Diverge

open Stateful

/-! ## Conjuncts that can be added -/

/-- A bit that stands for itself in a constraint set: no constant, and not taken apart. -/
structure Expr.IsLeaf (expression : Expr) : Prop where
  bit : expression.Bit
  nonconstant : expression.isConstant = false
  whole : expression.kind? = some (.binary .and) → expression.multi = true

theorem Expr.bit_of_wellTyped
    {expression : Expr}
    (proper : expression.Throughout Expr.Proper)
    (typed : expression.WellTyped)
    (width : expression.width = 1) :
    expression.Bit :=
  ⟨fun part isPart => ⟨(proper part isPart).measured, (typed part isPart).2,
    (typed part isPart).1⟩, width⟩

theorem Expr.isFalse_of_not_constant
    {expression : Expr}
    (nonconstant : expression.isConstant = false) :
    expression.isFalse = false := by
  simp [Expr.isFalse, Expr.constant?, nonconstant]

/-- The conjuncts of a bit that is no constant are no constants either. -/
theorem Expr.isLeaf_of_mem_conjuncts
    {expression : Expr}
    (bit : expression.Bit)
    (reduced : expression.Throughout Expr.Reduced)
    (nonconstant : expression.isConstant = false) :
    ∀ leaf ∈ expression.conjuncts, leaf.IsLeaf := by
  rcases Expr.conjuncts_cases bit.typed.self.measured with
    ⟨single, whole⟩ | ⟨tag, left, right, rfl, unmarked, both⟩
  · rw [single, List.forall_mem_singleton]
    exact ⟨bit, nonconstant, whole⟩
  · obtain ⟨bitLeft, bitRight⟩ := bit.of_and
    rw [Expr.throughout_binary] at reduced
    obtain ⟨ofLeft, ofRight⟩ := reduced.1 tag left right rfl unmarked bitLeft.width_eq
    rw [both, List.forall_mem_append]
    exact ⟨Expr.isLeaf_of_mem_conjuncts bitLeft reduced.2.1 ofLeft,
      Expr.isLeaf_of_mem_conjuncts bitRight reduced.2.2 ofRight⟩
termination_by sizeOf expression

/-- Of the conjuncts of a bit that is not the constant false none is, and a constant is true. -/
theorem Expr.isTrue_or_isLeaf
    {expression : Expr}
    (bit : expression.Bit)
    (reduced : expression.Throughout Expr.Reduced)
    (notFalse : expression.isFalse = false) :
    ∀ leaf ∈ expression.conjuncts, leaf.isTrue = true ∨ leaf.IsLeaf := by
  cases constant : expression.isConstant with
  | false =>
      exact fun leaf member =>
        .inr (Expr.isLeaf_of_mem_conjuncts bit reduced constant leaf member)
  | true =>
      obtain ⟨tag, truth, rfl, width⟩ := bit.eq_const constant
      refine List.forall_mem_singleton.2 (.inl ?_)
      cases truth <;>
        simp_all [Expr.isTrue, Expr.isFalse, Expr.width, Expr.tag, Expr.constant?,
          Expr.isConstant, Expr.kind?, Expr.value?, Word.ofBool]

/--
In a condition in which nothing is left to simplify no conjunct is false, unless it is the
constant false itself.
-/
theorem Expr.isPossible_of_bit
    {expression : Expr}
    (bit : expression.Bit)
    (reduced : expression.Throughout Expr.Reduced)
    (notFalse : expression.isFalse = false) :
    expression.IsPossible := by
  refine ⟨bit.width_eq, fun leaf member => ?_⟩
  rcases Expr.isTrue_or_isLeaf bit reduced notFalse leaf member with isTrue | isLeaf
  · simp_all [Expr.isTrue, Expr.isFalse]
  · exact Expr.isFalse_of_not_constant isLeaf.nonconstant

/-! ## Adding -/

namespace ConstraintSet

/-- The conjuncts that a set gains: those which are not true and not there, each once. -/
def gained (set : ConstraintSet) (conjuncts : List Expr) : List Expr :=
  (conjuncts.filter fun leaf => !leaf.isTrue && !set.contains leaf).eraseDupsBy Expr.same

/-- Entries are told apart by their identities. -/
def Distinct (set : ConstraintSet) : Prop :=
  (set.entries.map Expr.id).Nodup

/-- A conjunct that is constantly true adds nothing. -/
theorem gained_cons_of_isTrue
    {leaf : Expr}
    (isTrue : leaf.isTrue = true)
    (rest : List Expr)
    (set : ConstraintSet) :
    set.gained (leaf :: rest) = set.gained rest := by
  simp [gained, isTrue]

/-- What is not there yet is gained, and then it is there for what comes after it. -/
theorem append_gained_cons
    {leaf : Expr}
    (notTrue : leaf.isTrue = false)
    (rest : List Expr)
    (set : ConstraintSet) :
    set.entries ++ set.gained (leaf :: rest) =
      (set.push leaf).entries ++ (set.push leaf).gained rest := by
  cases there : set.contains leaf with
  | true =>
      have same : set.push leaf = set := if_pos there
      rw [same]
      simp [gained, there]
  | false =>
      have longer : set.push leaf = ⟨set.entries ++ [leaf]⟩ := if_neg (by simp [there])
      have kept : (leaf :: rest).filter (fun leaf => !leaf.isTrue && !set.contains leaf) =
          leaf :: rest.filter fun leaf => !leaf.isTrue && !set.contains leaf :=
        List.filter_cons_of_pos (by simp [notTrue, there])
      have contains (other : Expr) : ConstraintSet.contains ⟨set.entries ++ [leaf]⟩ other =
          (set.contains other || leaf.same other) := by
        simp [ConstraintSet.contains]
      rw [longer, gained, kept, List.eraseDupsBy_cons, List.filter_filter, gained,
        List.append_assoc, List.singleton_append]
      congr 3
      refine List.filter_congr fun other _ => ?_
      rw [contains, Bool.not_or]
      have symmetric : other.same leaf = leaf.same other := BEq.comm
      rw [symmetric]
      cases leaf.same other <;> simp

/-- Conjuncts of which none is false are added, as far as they are gained. -/
theorem addConjuncts_eq
    (conjuncts : List Expr)
    (possible : ∀ leaf ∈ conjuncts, leaf.isFalse = false)
    (set : ConstraintSet) :
    addConjuncts conjuncts set = .ok () ⟨set.entries ++ set.gained conjuncts⟩ := by
  induction conjuncts generalizing set with
  | nil => simp [addConjuncts, gained, pure, EStateM.pure]
  | cons leaf rest inductionHypothesis =>
      rw [List.forall_mem_cons] at possible
      have ofRest := inductionHypothesis possible.2
      unfold addConjuncts
      split
      · rename_i isTrue
        rw [ofRest set, gained_cons_of_isTrue isTrue]
      · rename_i notTrue
        rw [if_neg (by simp [possible.1]), append_gained_cons (by simpa using notTrue)]
        exact ofRest (set.push leaf)

/-- A constraint that is possible is added. -/
theorem add_eq
    {constraint : Expr}
    (possible : constraint.IsPossible)
    (set : ConstraintSet) :
    add constraint set = .ok () ⟨set.entries ++ set.gained constraint.conjuncts⟩ := by
  unfold add
  rw [if_pos possible.1, Expr.conjunctsBefore_eq, List.append_nil]
  exact addConjuncts_eq _ possible.2 set

/-- A constraint that was added has nothing left to add. -/
theorem add_again
    {constraint : Expr}
    {set later : ConstraintSet}
    (possible : constraint.IsPossible)
    (ran : add constraint set = .ok () later) :
    add constraint later = .ok () later := by
  obtain ⟨_, found⟩ := (add_moves constraint False.elim set).of_ok ran
  have nothing : later.gained constraint.conjuncts = [] := by
    have filtered : (constraint.conjuncts.filter fun leaf =>
        !leaf.isTrue && !later.contains leaf) = [] := by
      refine List.filter_eq_nil_iff.2 fun leaf member => ?_
      rcases found leaf member with isTrue | there
      · simp [isTrue]
      · have contains : later.contains leaf = true := List.any_eq_true.2 there
        simp [contains]
    rw [gained, filtered]
    rfl
  rw [add_eq possible, nothing, List.append_nil]

/-- A set takes up what it does not have yet, so no constraint comes in twice. -/
theorem Distinct.push
    {set : ConstraintSet}
    (distinct : set.Distinct)
    (expression : Expr) :
    (set.push expression).Distinct := by
  unfold ConstraintSet.push
  split
  · exact distinct
  · rename_i absent
    unfold Distinct
    rw [List.map_append, List.nodup_append]
    refine ⟨distinct, List.nodup_singleton _, ?_⟩
    rintro id isEntry _ isNew rfl
    obtain ⟨entry, member, rfl⟩ := List.mem_map.1 isEntry
    refine absent (List.any_eq_true.2 ⟨entry, member, ?_⟩)
    exact beq_iff_eq.2 (List.mem_singleton.1 isNew)

/-- The same after any number of conjuncts. -/
theorem distinct_addConjuncts
    (conjuncts : List Expr)
    {set : ConstraintSet}
    (distinct : set.Distinct) :
    Yields (addConjuncts conjuncts) set fun _ later => later.Distinct := by
  induction conjuncts generalizing set with
  | nil => exact Yields.pure distinct
  | cons leaf rest inductionHypothesis =>
      unfold addConjuncts
      split
      · exact inductionHypothesis distinct
      · split
        · exact Yields.throw
        · exact Yields.bind (Yields.modify (inductionHypothesis (distinct.push leaf)))

/-- A constraint that is not a single bit is refused, with its text if it has one. -/
theorem add_of_width_ne
    {constraint : Expr}
    (wide : constraint.width ≠ 1)
    (proper : constraint.Throughout Expr.Proper)
    (set : ConstraintSet) :
    (constraint.Throughout Expr.Short ∧
        ∃ text, constraint.render = .ok text ∧
          add constraint set = .error (.notBoolean text) set) ∨
      (¬ constraint.Throughout Expr.Short ∧
        add constraint set = .error .tooManyDigits set) := by
  rw [← Expr.hasText_iff constraint proper]
  unfold add
  rw [if_neg wide]
  by_cases hasText : constraint.HasText
  · obtain ⟨text, written⟩ := hasText
    rw [written]
    exact .inl ⟨⟨text, written⟩, text, rfl, rfl⟩
  · rw [Expr.render_of_not_hasText proper hasText]
    exact .inr ⟨hasText, rfl⟩

/-- The constant false is refused, and the set stays as it was. -/
theorem add_of_isFalse
    {constraint : Expr}
    (measured : constraint.Measured)
    (isFalse : constraint.isFalse = true)
    (set : ConstraintSet) :
    add constraint set = .error .falseConstraint set := by
  have constant : constraint.isConstant = true := by
    by_contra other
    rw [Expr.isFalse_of_not_constant (by simpa using other)] at isFalse
    cases isFalse
  obtain ⟨tag, value, rfl⟩ := Expr.eq_const_of_isConstant measured constant
  have width : (Expr.const tag value).width = 1 := by
    simp_all [Expr.isFalse]
  have notTrue : (Expr.const tag value).isTrue = false := by
    simp_all [Expr.isFalse, Expr.isTrue]
  unfold add
  rw [if_pos width]
  show addConjuncts [.const tag value] set = _
  unfold addConjuncts
  rw [if_neg (by simp [notTrue]), if_pos isFalse]
  rfl

/-! ## Sets made by adding -/

/-- The sets that come about by adding constraints, whether or not each could be added. -/
inductive Made (given : Expr → Prop) : ConstraintSet → Prop where
  | empty : Made given .empty
  | add
      {set : ConstraintSet}
      {constraint : Expr}
      (made : Made given set)
      (isGiven : given constraint) :
      Made given (final (ConstraintSet.add constraint) set)

/-- What every set is that was made from expressions at hand in a workshop. -/
structure Neat (workshop : Workshop) (set : ConstraintSet) : Prop where
  registered : set.Registered workshop.histories workshop.table
  leaves : ∀ entry ∈ set.entries, entry.IsLeaf
  distinct : set.Distinct

/-- `later` is `set` with a constraint added to it. -/
structure Conjoined (constraint : Expr) (set later : ConstraintSet) : Prop where
  /-- The conjuncts that were not there are appended in their order, each once. -/
  entries_eq : later.entries = set.entries ++ set.gained constraint.conjuncts
  distinct : later.Distinct
  nonconstant : ∀ entry ∈ later.entries, entry.isConstant = false
  /-- No entry is a conjunction that could be taken apart. -/
  whole : ∀ entry ∈ later.entries, entry.kind? = some (.binary .and) → entry.multi = true
  holds_iff : ∀ assignment outcome, constraint.ArraysFit assignment →
    constraint.evaluate assignment = .ok outcome →
      (later.Holds assignment ↔ set.Holds assignment ∧ constraint.Holds assignment)
  again : ConstraintSet.add constraint later = .ok () later

section

variable
  {workshop : Workshop}
  {set : ConstraintSet}
  {constraint : Expr}

/-- A single bit that is not the constant false can be added, and the set stays neat. -/
theorem Neat.add
    (reached : workshop.Reachable)
    (neat : set.Neat workshop)
    (built : constraint ∈ workshop.expressions)
    (bit : constraint.Bit)
    (notFalse : constraint.isFalse = false) :
    ∃ later, ConstraintSet.add constraint set = .ok () later ∧ later.Neat workshop := by
  have reduced := reached.reduced.expressions constraint built
  have possible := Expr.isPossible_of_bit bit reduced notFalse
  have ran := add_eq possible set
  refine ⟨_, ran, ?_⟩
  obtain ⟨gains, _⟩ := (add_moves constraint False.elim set).of_ok ran
  constructor
  · exact gains.registered neat.registered (reached.sound.registered constraint built)
  · intro entry member
    rcases gains.new entry member with old | ⟨new, notTrue, _⟩
    · exact neat.leaves entry old
    · rcases Expr.isTrue_or_isLeaf bit reduced notFalse entry new with isTrue | isLeaf
      · exact (Bool.eq_false_iff.1 notTrue isTrue).elim
      · exact isLeaf
  · unfold ConstraintSet.add at ran
    rw [if_pos possible.1] at ran
    exact distinct_addConjuncts _ neat.distinct ran

/--
A set that was made by adding well-typed constraints has no constants, no open conjunctions and
no repetitions.
-/
theorem Made.neat
    (reached : workshop.Reachable)
    (made : set.Made fun other => other ∈ workshop.expressions ∧ other.WellTyped) :
    set.Neat workshop := by
  induction made with
  | empty => exact ⟨by simp [Registered, ConstraintSet.empty], by simp [ConstraintSet.empty], .nil⟩
  | @add set constraint made isGiven neat =>
      have proper := (reached.sound.registered constraint isGiven.1).proper
      unfold final
      by_cases width : constraint.width = 1
      · cases isFalse : constraint.isFalse with
        | true =>
            rw [add_of_isFalse proper.self.measured isFalse]
            exact neat
        | false =>
            obtain ⟨later, ran, neatLater⟩ :=
              neat.add reached isGiven.1 (Expr.bit_of_wellTyped proper isGiven.2 width) isFalse
            rw [ran]
            exact neatLater
      · rcases add_of_width_ne width proper set with ⟨_, text, _, ran⟩ | ⟨_, ran⟩
        · rw [ran]
          exact neat
        · rw [ran]
          exact neat

end

end ConstraintSet

/--
Adding a constraint to a set that was made by adding constraints.  A constraint that is
not a single bit is refused with its text, or without one if an integer in it has too many
digits; the constant false is refused; both leave the set as it was.  Every other constraint
is added: the set gains its conjuncts, and means the conjunction of both.
-/
theorem Workshop.add_exact
    {workshop : Workshop}
    (reached : workshop.Reachable)
    {set : ConstraintSet}
    (made : set.Made fun other => other ∈ workshop.expressions ∧ other.WellTyped)
    {constraint : Expr}
    (built : constraint ∈ workshop.expressions)
    (typed : constraint.WellTyped) :
    (constraint.width ≠ 1 → constraint.Throughout Expr.Short →
      ∃ text, constraint.render = .ok text ∧
        ConstraintSet.add constraint set = .error (.notBoolean text) set) ∧
    (constraint.width ≠ 1 → ¬ constraint.Throughout Expr.Short →
      ConstraintSet.add constraint set = .error .tooManyDigits set) ∧
    (constraint.isFalse = true →
      ConstraintSet.add constraint set = .error .falseConstraint set) ∧
    (constraint.width = 1 → constraint.isFalse = false →
      ∃ later, ConstraintSet.add constraint set = .ok () later ∧
        set.Conjoined constraint later) := by
  have sound := reached.sound
  have registered := sound.registered constraint built
  have neat := made.neat reached
  refine ⟨?_, ?_, ?_, ?_⟩
  · intro wide short
    rcases ConstraintSet.add_of_width_ne wide registered.proper set with
      ⟨_, refused⟩ | ⟨long, _⟩
    · exact refused
    · exact (long short).elim
  · intro wide long
    rcases ConstraintSet.add_of_width_ne wide registered.proper set with
      ⟨short, _⟩ | ⟨_, refused⟩
    · exact (long short).elim
    · exact refused
  · intro isFalse
    exact ConstraintSet.add_of_isFalse registered.self.proper.measured isFalse set
  · intro width notFalse
    have bit := Expr.bit_of_wellTyped registered.proper typed width
    have possible := Expr.isPossible_of_bit bit
      (reached.reduced.expressions constraint built) notFalse
    obtain ⟨later, ran, neatLater⟩ := neat.add reached built bit notFalse
    refine ⟨later, ran, ?_⟩
    constructor
    · cases (ConstraintSet.add_eq possible set).symm.trans ran
      rfl
    · exact neatLater.distinct
    · exact fun entry member => (neatLater.leaves entry member).nonconstant
    · exact fun entry member => (neatLater.leaves entry member).whole
    · intro assignment outcome fits evaluated
      exact ConstraintSet.holds_add sound.supports neat.registered registered
        ⟨Expr.sized_of_wellTyped registered.proper typed fits, width, outcome, evaluated⟩ ran
    · exact ConstraintSet.add_again possible ran

namespace TwoBounds

def array : ArrayDecl := ⟨0, "a", 4, none, 32, 8⟩

def place : Expr := .const ⟨1, 32, false⟩ 0

def byte : Expr := .read ⟨2, 8, false⟩ (.root array) place

def low : Expr := .const ⟨3, 8, false⟩ 10

def high : Expr := .const ⟨4, 8, false⟩ 20

def below : Expr := .binary ⟨5, 1, false⟩ .ult byte high

def above : Expr := .binary ⟨6, 1, false⟩ .ult low byte

/-- The byte is between the bounds. -/
def between : Expr := .binary ⟨7, 1, false⟩ .and below above

/-- The same, with the first bound once more. -/
def twice : Expr := .binary ⟨8, 1, false⟩ .and between below

def workshop : Workshop :=
  [.constant 0 32, .read (.root array) place false, .constant 10 8, .constant 20 8,
    .binary .ult byte high false, .binary .ult low byte false, .binary .and below above false,
    .binary .and between below false].foldl
    Workshop.construct (Workshop.declare {} "a" 4 none 32 8)

theorem expressions_workshop :
    workshop.expressions = [twice, between, above, below, high, low, byte, place] := rfl

theorem reachable : workshop.Reachable := by
  refine Workshop.Reachable.foldl_construct (.single (.declare "a" 4 none 32 8)) ?_
  refine ⟨?_, ?_, ?_, ?_, ?_, ?_, ?_, ?_, ?_, ?_, ?_, ?_, ?_, ?_, ?_, ?_, trivial⟩
  all_goals simp [Construction.operands, Construction.history?]
  all_goals repeat constructor

theorem wellTyped : byte.WellTyped ∧ above.WellTyped ∧ twice.WellTyped := by
  simp [twice, between, above, below, high, low, byte, place, Expr.WellTyped, Expr.Matched,
    Updates.Matched, Expr.width, Expr.tag]

def assigned (byte : UInt8) : Assignment :=
  .ofList [(array, [byte])]

theorem arraysFit (byte : UInt8) : twice.ArraysFit (assigned byte) := by
  simp [twice, between, above, below, high, low, TwoBounds.byte, place, assigned,
    Expr.ArraysFit, Expr.updates?, Updates.array, array, ArrayDecl.Fits, ArrayDecl.values,
    Assignment.ofList]
  exact byte.toNat_lt

end TwoBounds

open TwoBounds in
/-- Of three conjuncts one was there and another comes twice, so the set gains one entry. -/
theorem add_exact_twice :
    ∃ later, ConstraintSet.add twice ⟨[above]⟩ = .ok () later ∧
      later.entries = [above, below] ∧ ConstraintSet.add twice later = .ok () later ∧
      ¬ later.Holds (assigned 25) ∧
      ConstraintSet.add byte ⟨[above]⟩ =
        .error (.notBoolean "(Read w8 (w32 0) a)") ⟨[above]⟩ := by
  have atHand : byte ∈ workshop.expressions ∧ above ∈ workshop.expressions ∧
      twice ∈ workshop.expressions := by
    simp [expressions_workshop]
  obtain ⟨typedByte, typedAbove, typedTwice⟩ := wellTyped
  have made : ConstraintSet.Made
      (fun other => other ∈ workshop.expressions ∧ other.WellTyped)
      (final (ConstraintSet.add above) .empty) :=
    .add .empty ⟨atHand.2.1, typedAbove⟩
  have single : final (ConstraintSet.add above) .empty = ⟨[above]⟩ := rfl
  rw [single] at made
  have refused := (Workshop.add_exact reachable made atHand.1 typedByte).1
  have added := (Workshop.add_exact reachable made atHand.2.2 typedTwice).2.2.2
  obtain ⟨later, ran, conjoined⟩ := added rfl rfl
  have short : byte.Throughout Expr.Short := by
    simp [byte, place, Expr.Short, Expr.numbers, Expr.width, Expr.tag, Integer.lt_limit]
  obtain ⟨text, written, refusal⟩ := refused (by decide) short
  refine ⟨later, ran, conjoined.entries_eq, conjoined.again, ?_, ?_⟩
  · have evaluated : twice.evaluate (assigned 25) = .ok (some 0) := rfl
    rw [conjoined.holds_iff _ _ (arraysFit 25) evaluated]
    rintro ⟨_, value, isValue, nonzero⟩
    cases evaluated.symm.trans isValue
    exact nonzero rfl
  · have isText : byte.render = .ok "(Read w8 (w32 0) a)" := by decide +kernel
    cases isText.symm.trans written
    exact refusal

-- A constant with one digit too many has no text to be refused with.
example :
    (match ConstraintSet.add (.const ⟨0, 20000, false⟩ Integer.limit) .empty with
      | .ok _ _ => false
      | .error fault _ => fault matches .tooManyDigits) = true := by decide +kernel

end Diverge
