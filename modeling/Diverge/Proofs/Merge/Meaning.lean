import Diverge.Proofs.State.System

/-!
# The meaning of a merge

A state stands for the assignments under which its constraints hold, and under each
of them for the values of its registers and bytes.  A merged state stands for the
assignments of both sides.  Under those of the receiver it has the values of the
receiver, and under the others those of the state it took in
(`Execution.merge_sound`).
-/

namespace Diverge

open Stateful

/-! ## Values -/

/-- The values of the bytes. -/
def Contents.values
    (assignment : Assignment) (contents : Contents) : List (Except Fault (Option Int)) :=
  contents.bytes.map (·.evaluate assignment)

namespace Execution

/-- What a state shows of an object. -/
def imageOf? (execution : Execution) (place : Nat) (object : MemoryObject) :
    Option Contents :=
  execution.heap.image? (execution.stateAt place).space object

/-- All objects of a state are filled with bytes. -/
def IsFilled (execution : Execution) (place : Nat) : Prop :=
  ∀ object, ∀ contents ∈ execution.imageOf? place object, contents.Fills object

/-- Some registers and all bytes of one state have the values of those of another. -/
structure Shows
    (assignment : Assignment)
    (defined : Nat → Nat → Prop)
    (first : Execution)
    (place : Nat)
    (second : Execution)
    (source : Nat) : Prop where
  registers : ∀ frame register, defined frame register →
    ((first.stateAt place).register? frame register).map (·.evaluate assignment) =
      ((second.stateAt source).register? frame register).map (·.evaluate assignment)
  bytes : ∀ object,
    (first.imageOf? place object).map (·.values assignment) =
      (second.imageOf? source object).map (·.values assignment)

/-- A register that two states define. -/
def BothDefine (execution : Execution) (place otherPlace frame register : Nat) : Prop :=
  (execution.stateAt place).register? frame register ≠ none ∧
    (execution.stateAt otherPlace).register? frame register ≠ none

theorem isFilled_of_listing
    {execution : Execution}
    {place : Nat}
    (fills : ∀ entry ∈ execution.heap.listing (execution.stateAt place).space,
      entry.2.Fills entry.1) :
    execution.IsFilled place :=
  fun object contents shown => fills (object, contents) (Assoc.mem_of_get? shown)

end Execution

section

variable {assignment : Assignment} {guard : Expr} {truth : Bool}

/-- What a merge makes of two values has the value of the side that the guard decides for. -/
theorem Expr.Joined.evaluate_eq
    {first second value : Option Expr}
    (joined : guard.Joined first second value)
    (judged : guard.Judged assignment truth)
    (isFirst : first ≠ none)
    (isSecond : second ≠ none) :
    value.map (·.evaluate assignment) =
      (if truth then first else second).map (·.evaluate assignment) := by
  cases first with
  | none => exact (isFirst rfl).elim
  | some first =>
      cases second with
      | none => exact (isSecond rfl).elim
      | some second =>
          obtain ⟨value, rfl, chosen⟩ := joined
          have same := chosen.evaluate_eq assignment truth judged
          cases truth with
          | true => exact congrArg some same
          | false => exact congrArg some same

/-- Merged bytes have the values of the side that the guard picks. -/
theorem ContentsMerged.values_eq
    {object : MemoryObject}
    {first second merged : Contents}
    (joined : ContentsMerged guard object.size.toNat first second merged)
    (judged : guard.Judged assignment truth)
    (filled : truth = false → first.Fills object ∧ second.Fills object) :
    merged.values assignment = (if truth then first else second).values assignment := by
  refine List.ext_getElem? fun position => ?_
  unfold Contents.values
  rw [List.getElem?_map, List.getElem?_map]
  have atPosition := joined.bytes position
  by_cases inside : 0 ≤ position ∧ position < object.size.toNat
  · rw [if_pos inside] at atPosition
    obtain ⟨one, other, value, isOne, isOther, isValue, chosen⟩ := atPosition
    have same := chosen.evaluate_eq assignment truth judged
    rw [isValue]
    cases truth with
    | true =>
        rw [if_pos rfl, isOne]
        exact congrArg some same
    | false =>
        rw [if_neg Bool.false_ne_true, isOther]
        exact congrArg some same
  · rw [if_neg inside] at atPosition
    rw [atPosition]
    cases truth with
    | true => rw [if_pos rfl]
    | false =>
        -- Past its end there is no byte on either side.
        obtain ⟨fillsFirst, fillsSecond⟩ := filled rfl
        have size := fillsFirst.1
        have sizeSecond := fillsSecond.1
        rw [if_neg Bool.false_ne_true, List.getElem?_eq_none (by omega),
          List.getElem?_eq_none (by omega)]

end

/-! ## Images -/

namespace Execution

section

variable
  {histories : List Updates}
  {before after : Execution}
  {place otherPlace : Nat}
  {guard : Expr}

theorem mem_objectsOf
    {execution : Execution}
    {object : MemoryObject} :
    object ∈ execution.objectsOf place ↔ execution.imageOf? place object ≠ none := by
  unfold objectsOf imageOf?
  rw [Heap.image?_eq, ne_eq, Option.map_eq_none_iff, ← ne_eq]
  exact ((Space.objects_perm _).map Prod.fst).mem_iff.trans Assoc.mem_keys_iff

/-- What a merge makes of the image of an object. -/
theorem Merged.imageOf?_cases
    (sound : before.Sound histories)
    (mergeable : before.Mergeable place otherPlace)
    (merged : Merged guard (before.differing place otherPlace) place otherPlace before after)
    (object : MemoryObject) :
    (after.imageOf? place object = before.imageOf? place object ∧
        before.imageOf? place object = before.imageOf? otherPlace object) ∨
      ∃ first second image,
        before.imageOf? place object = some first ∧
          before.imageOf? otherPlace object = some second ∧
            after.imageOf? place object = some image ∧
              ContentsMerged guard object.size.toNat first second image := by
  unfold imageOf?
  rw [merged.space_eq]
  by_cases differs : object ∈ before.differing place otherPlace
  · have joined := merged.memory.image_merged object differs
    have listed := @mem_objectsOf place before object
    have listedOther := @mem_objectsOf otherPlace before object
    rw [mergeable.objects_eq, listedOther] at listed
    unfold imageOf? at listed
    cases one : before.heap.image? (before.stateAt place).space object with
    | none =>
        rw [one] at joined
        rw [one, ne_eq, ne_eq, not_iff_not] at listed
        exact Or.inl ⟨joined, (listed.2 rfl).symm⟩
    | some first =>
        cases other : before.heap.image? (before.stateAt otherPlace).space object with
        | none =>
            rw [one, other] at listed
            exact (listed.2 (Option.some_ne_none first) rfl).elim
        | some second =>
            rw [one, other] at joined
            obtain ⟨image, isImage, contents⟩ := joined
            exact Or.inr ⟨first, second, image, rfl, rfl, isImage, contents⟩
  · have shared : before.heap.find? (before.stateAt place).space object =
        before.heap.find? (before.stateAt otherPlace).space object := by
      rw [mergeable.mem_differing sound, ne_eq, not_not] at differs
      exact differs
    refine Or.inl ⟨merged.memory.image_eq object differs, ?_⟩
    rw [Heap.image?_eq, Heap.image?_eq, shared]

/-- A merged state shows the side that the guard picks. -/
theorem Merged.shows
    {assignment : Assignment}
    {truth : Bool}
    (sound : before.Sound histories)
    (mergeable : before.Mergeable place otherPlace)
    (merged : Merged guard (before.differing place otherPlace) place otherPlace before after)
    (judged : guard.Judged assignment truth)
    (filled : truth = false → before.IsFilled place ∧ before.IsFilled otherPlace) :
    Shows assignment (before.BothDefine place otherPlace) after place before
      (if truth then place else otherPlace) := by
  constructor
  · intro frame register both
    have values := (merged.registers frame register).evaluate_eq judged both.1 both.2
    cases truth with
    | true => exact values
    | false => exact values
  · intro object
    rcases merged.imageOf?_cases sound mergeable object with
      ⟨unchanged, shared⟩ | ⟨first, second, image, isFirst, isSecond, isImage, contents⟩
    · rw [unchanged]
      cases truth with
      | true => rfl
      | false => rw [shared, if_neg Bool.false_ne_true]
    · have values := contents.values_eq judged fun isFalse =>
        ⟨(filled isFalse).1 object first isFirst, (filled isFalse).2 object second isSecond⟩
      rw [isImage]
      cases truth with
      | true =>
          rw [if_pos rfl, isFirst]
          exact congrArg some values
      | false =>
          rw [if_neg Bool.false_ne_true, isSecond]
          exact congrArg some values

end

end Execution

/-! ## The meaning -/

namespace ConstraintSet

/-- All entries are well-typed bits. -/
def AreBits (set : ConstraintSet) : Prop :=
  ∀ entry ∈ set.entries, entry.WellTyped ∧ entry.width = 1

/-- All entries have values under an assignment that fits their arrays. -/
def Evaluate (assignment : Assignment) (set : ConstraintSet) : Prop :=
  ∀ entry ∈ set.entries,
    entry.ArraysFit assignment ∧ ∃ value, entry.evaluate assignment = .ok value

/-- Bits that evaluate without an error are conditions. -/
theorem areConditions_of_areBits
    {assignment : Assignment}
    {histories : List Updates}
    {table : Table}
    {set : ConstraintSet}
    (registered : set.Registered histories table)
    (bits : set.AreBits)
    (evaluate : set.Evaluate assignment) :
    set.AreConditions assignment := by
  intro entry member
  obtain ⟨typed, width⟩ := bits entry member
  obtain ⟨fits, value, evaluated⟩ := evaluate entry member
  exact ⟨Expr.sized_of_wellTyped (registered entry member).proper typed fits, width,
    value, evaluated⟩

end ConstraintSet

namespace Execution

/--
A merged state stands for the assignments of both sides, and shows the receiver
under those of the receiver and the other state under the rest.
-/
theorem merge_sound
    {system : System}
    (reached : system.Reachable)
    {place otherPlace : Nat}
    (present : place < system.execution.states.size)
    (bits : (system.execution.stateAt place).constraints.AreBits)
    (bitsOther : (system.execution.stateAt otherPlace).constraints.AreBits)
    (filled : system.execution.IsFilled place)
    (filledOther : system.execution.IsFilled otherPlace)
    {later : Execution}
    (ran : merge place otherPlace system.execution = .ok true later)
    {assignment : Assignment}
    (evaluate : (system.execution.stateAt place).constraints.Evaluate assignment)
    (evaluateOther :
      (system.execution.stateAt otherPlace).constraints.Evaluate assignment) :
    ((later.stateAt place).constraints.Holds assignment ↔
        (system.execution.stateAt place).constraints.Holds assignment ∨
          (system.execution.stateAt otherPlace).constraints.Holds assignment) ∧
      ((system.execution.stateAt place).constraints.Holds assignment →
        Shows assignment (system.execution.BothDefine place otherPlace)
          later place system.execution place) ∧
      ((system.execution.stateAt otherPlace).constraints.Holds assignment →
        ¬ (system.execution.stateAt place).constraints.Holds assignment →
          Shows assignment (system.execution.BothDefine place otherPlace)
            later place system.execution otherPlace) := by
  have sound := reached.sound.execution
  obtain ⟨mergeable, _, guard, merged⟩ :=
    ((moves_merge sound present otherPlace False.elim).of_ok ran).2
  have conditions := ConstraintSet.areConditions_of_areBits
    (sound.states place).constraints bits evaluate
  have conditionsOther := ConstraintSet.areConditions_of_areBits
    (sound.states otherPlace).constraints bitsOther evaluateOther
  obtain ⟨truth, judged, ofReceiver, ofOther⟩ := merged.reconciled.judged assignment conditions
  have shows := merged.shows sound mergeable judged fun _ => ⟨filled, filledOther⟩
  refine ⟨merged.reconciled.holds_iff assignment conditions conditionsOther, ?_, ?_⟩
  · intro holds
    rw [ofReceiver holds] at shows
    exact shows
  · intro holds fails
    have isFalse : truth = false := by
      cases truth with
      | true => exact (fails (ofOther rfl holds)).elim
      | false => rfl
    rw [isFalse] at shows
    exact shows

end Execution

namespace ForkedPath

def array : ArrayDecl :=
  { id := 0, name := "a", size := 1, contents := none, domain := 32, range := 8 }

def index : Expr := .const ⟨1, 32, false⟩ 0

def input : Expr := .read ⟨2, 8, false⟩ (.root array) index

def zero : Expr := .const ⟨3, 8, false⟩ 0

def five : Expr := .const ⟨4, 8, false⟩ 5

def isZero : Expr := .binary ⟨5, 1, false⟩ .eq input zero

def notZero : Expr := .binary ⟨6, 1, false⟩ .ne input zero

def workshop : Workshop :=
  [.constant 0 32, .read (.root array) index false, .constant 0 8, .constant 5 8,
    .binary .eq input zero false, .binary .ne input zero false].foldl Workshop.construct
      (Workshop.declare {} "a" 1 none 32 8)

theorem reachable_workshop : workshop.Reachable := by
  refine Workshop.Reachable.foldl_construct
    (Relation.ReflTransGen.single (.declare "a" 1 none 32 8)) ?_
  refine ⟨?_, ?_, ?_, ?_, ?_, ?_, ?_, ?_, ?_, ?_, ?_, ?_, trivial⟩
  all_goals simp [Construction.operands, Construction.history?]
  · exact .head _
  · exact .head _
  · exact ⟨.tail _ (.tail _ (.head _)), .tail _ (.head _)⟩
  · exact ⟨.tail _ (.tail _ (.tail _ (.head _))), .tail _ (.tail _ (.head _))⟩

def object : MemoryObject :=
  { key := 0, number := 1, address := 0, size := 1, name := "m", allocSite := none
    isLocal := false }

def function : Function :=
  { key := 0, name := "f", registers := 1, instructions := [{ number := 0 }]
    argRegisters := [], argNames := [] }

/-- A register and a byte are zero on the path of a zero input, and five on the other. -/
def system : System :=
  [.create function none {},
    .bind 0 object { object, readOnly := false, owner := 0, bytes := [zero] },
    .assign 0 0 0 (some zero), .fork 0, .constrain 0 isZero, .constrain 1 notZero,
    .assign 1 0 0 (some five), .writeByte 1 object 0 five].foldl System.act
      (System.equip {} workshop)

theorem reachable : system.Reachable := by
  refine System.Reachable.foldl_act (System.Reachable.equip reachable_workshop) ?_
    (by decide +kernel)
  have atHand : (System.equip {} workshop).expressions =
    [notZero, isZero, five, zero, input, index] := rfl
  rw [atHand]
  simp [Action.uses]

theorem entries_zero :
    (system.execution.stateAt 0).constraints.entries = [isZero] := rfl

theorem entries_one :
    (system.execution.stateAt 1).constraints.entries = [notZero] := rfl

def assignment : Assignment := fun _ => [7]

theorem wellTyped
    (id : Nat)
    (operator : BinaryOp) :
    (Expr.binary ⟨id, 1, false⟩ operator input zero).WellTyped := by
  simp [input, zero, index, Expr.WellTyped, Expr.throughout_binary, Expr.throughout_read,
    Expr.throughout_const, Expr.Matched, Updates.Matched, Expr.width, Expr.tag]

theorem arraysFit
    (id : Nat)
    (operator : BinaryOp) :
    (Expr.binary ⟨id, 1, false⟩ operator input zero).ArraysFit assignment := by
  simp [input, zero, index, Expr.ArraysFit, Expr.throughout_binary, Expr.throughout_read,
    Expr.throughout_const, Expr.updates?, ArrayDecl.Fits, ArrayDecl.values, Updates.array,
    array, assignment]

theorem areBits
    {set : ConstraintSet}
    {id : Nat}
    {operator : BinaryOp}
    (entries : set.entries = [.binary ⟨id, 1, false⟩ operator input zero]) :
    set.AreBits := by
  intro entry member
  rw [entries, List.mem_singleton] at member
  rw [member]
  exact ⟨wellTyped id operator, rfl⟩

theorem evaluates
    {set : ConstraintSet}
    {id : Nat}
    {operator : BinaryOp}
    (entries : set.entries = [.binary ⟨id, 1, false⟩ operator input zero])
    (value : ∃ value, Expr.evaluate assignment
      (.binary ⟨id, 1, false⟩ operator input zero) = .ok value) :
    set.Evaluate assignment := by
  intro entry member
  rw [entries, List.mem_singleton] at member
  rw [member]
  exact ⟨arraysFit id operator, value⟩

theorem isFilled
    {execution : Execution}
    {place : Nat}
    {byte : Expr}
    (listing : execution.heap.listing (execution.stateAt place).space =
      [(object, { object, readOnly := false, owner := 0, bytes := [byte] })])
    (width : byte.width = 8) :
    execution.IsFilled place := by
  refine Execution.isFilled_of_listing fun entry member => ?_
  rw [listing, List.mem_singleton] at member
  rw [member]
  exact ⟨rfl, by simpa using width⟩

theorem holds_notZero
    {set : ConstraintSet}
    (entries : set.entries = [notZero]) :
    set.Holds assignment := by
  intro entry member
  rw [entries, List.mem_singleton] at member
  exact ⟨1, by rw [member]; rfl, one_ne_zero⟩

theorem fails_isZero
    {set : ConstraintSet}
    (entries : set.entries = [isZero]) :
    ¬ set.Holds assignment := by
  intro holds
  obtain ⟨value, evaluated, nonzero⟩ := holds isZero (by simp [entries])
  have isFalse : isZero.evaluate assignment = .ok (some 0) := rfl
  rw [isFalse] at evaluated
  cases evaluated
  exact nonzero rfl

end ForkedPath

open Execution ForkedPath in
/-- Under an input of seven the merged state shows the path that is not zero. -/
theorem merge_sound_forkedPath :
    ∃ later, merge 0 1 system.execution = .ok true later ∧
      (later.stateAt 0).constraints.Holds assignment ∧
        Shows assignment (system.execution.BothDefine 0 1) later 0 system.execution 1 := by
  have answered : (match merge 0 1 system.execution with
      | .ok answer _ => answer
      | .error _ _ => false) = true := by decide +kernel
  cases ran : merge 0 1 system.execution with
  | error fault later =>
      rw [ran] at answered
      exact (Bool.false_ne_true answered).elim
  | ok answer later =>
      rw [ran] at answered
      cases answered
      obtain ⟨holdsIff, _, ofOther⟩ := merge_sound reachable (by decide +kernel)
        (areBits entries_zero) (areBits entries_one) (isFilled rfl rfl) (isFilled rfl rfl)
        ran (evaluates entries_zero ⟨_, rfl⟩) (evaluates entries_one ⟨_, rfl⟩)
      have holds := holds_notZero entries_one
      exact ⟨later, rfl, holdsIff.2 (Or.inr holds), ofOther holds (fails_isZero entries_zero)⟩

end Diverge
