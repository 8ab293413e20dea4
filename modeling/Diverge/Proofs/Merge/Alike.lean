import Diverge.Proofs.Merge.Meaning

/-!
# States that are alike

A state can take another in when both stand at the same place
(`ExecState.comparable_iff`) and list the same objects.  A merge changes neither, nor
anything else that other states have.  What is left of states that can be merged with
one another can be merged still (`Execution.Alike.merged`), and but for a text that
one of the constraints lacks nothing stops the merge of two of them
(`Execution.Alike.moves_merge`).
-/

namespace Diverge

open Stateful

/-! ## Where a state stands -/

/-- What states must agree on to be comparable. -/
structure Outline where
  pc : Option Int
  symbolics : List (MemoryObject × ArrayDecl)
  /-- Where each frame was called from, and the function that it runs. -/
  frames : List (Option Int × Nat)
  deriving DecidableEq

namespace ExecState

/-- Where a state stands. -/
def outline (state : ExecState) : Outline where
  pc := state.pc.map (·.number)
  symbolics := state.symbolics
  frames := state.stack.map fun frame => (frame.caller.map (·.number), frame.function.key)

theorem sameShape_iff
    (left right : ExecState) :
    left.sameShape right = true ↔ left.outline.frames = right.outline.frames := by
  unfold sameShape outline
  generalize left.stack = firsts
  generalize right.stack = seconds
  induction firsts generalizing seconds with
  | nil =>
      cases seconds with
      | nil => simp
      | cons second rest => simp
  | cons first firsts inductionHypothesis =>
      cases seconds with
      | nil => simp
      | cons second seconds =>
          have rest := inductionHypothesis seconds
          simp only [Bool.and_eq_true, beq_iff_eq] at rest
          simp only [List.length_cons, List.zip_cons_cons, List.all_cons, List.map_cons,
            Bool.and_eq_true, beq_iff_eq, Nat.add_right_cancel_iff, List.cons.injEq,
            Prod.mk.injEq, Instruction.same?, Function.same]
          rw [← rest]
          tauto

/-- States can be compared if their outlines are equal, so this is an equivalence. -/
theorem comparable_iff
    (left right : ExecState) :
    left.comparable right = true ↔ left.outline = right.outline := by
  unfold comparable
  rw [Bool.and_eq_true, Bool.and_eq_true, sameShape_iff]
  unfold sameSymbolics Instruction.same? outline
  rw [beq_iff_eq, beq_iff_eq, Outline.mk.injEq, and_assoc]

end ExecState

/-! ## What a merge keeps -/

/-- Merged bytes are as many as there were, and as wide. -/
theorem ContentsMerged.fills
    {guard : Expr}
    {object : MemoryObject}
    {first second merged : Contents}
    (joined : ContentsMerged guard object.size.toNat first second merged)
    (fills : first.Fills object)
    (fillsToo : second.Fills object) :
    merged.Fills object := by
  have alike (position : Nat) :
      (merged.bytes[position]? = none ↔ first.bytes[position]? = none) ∧
        ∀ byte, merged.bytes[position]? = some byte → byte.width = 8 := by
    have bytes := joined.bytes position
    by_cases inside : 0 ≤ position ∧ position < object.size.toNat
    · rw [if_pos inside] at bytes
      obtain ⟨one, other, value, isOne, isOther, isValue, chosen⟩ := bytes
      have width := fills.2 one (List.mem_of_getElem? isOne)
      have widthToo := fillsToo.2 other (List.mem_of_getElem? isOther)
      rw [isOne, isValue]
      refine ⟨by simp, ?_⟩
      rintro byte ⟨⟩
      rw [chosen.width_eq (width.trans widthToo.symm), width]
    · rw [if_neg inside] at bytes
      rw [bytes]
      exact ⟨Iff.rfl, fun byte isByte => fills.2 byte (List.mem_of_getElem? isByte)⟩
  constructor
  · have upper := (alike first.bytes.length).1.2 (List.getElem?_eq_none (Nat.le_refl _))
    have lower := (alike merged.bytes.length).1.1 (List.getElem?_eq_none (Nat.le_refl _))
    rw [List.getElem?_eq_none_iff] at upper lower
    rw [Nat.le_antisymm upper lower, fills.1]
  · intro byte member
    obtain ⟨position, isByte⟩ := List.mem_iff_getElem?.1 member
    exact (alike position).2 byte isByte

/-- A register that both sides define is defined after a merge. -/
theorem Expr.Joined.ne_none
    {guard : Expr}
    {first second value : Option Expr}
    (joined : guard.Joined first second value)
    (isFirst : first ≠ none)
    (isSecond : second ≠ none) :
    value ≠ none := by
  cases first with
  | none => exact (isFirst rfl).elim
  | some first =>
      cases second with
      | none => exact (isSecond rfl).elim
      | some second =>
          obtain ⟨value, rfl, _⟩ := joined
          exact Option.some_ne_none value

/-- The outline does not see the values of registers nor the constraints. -/
theorem ExecState.outline_eq_of_shapes
    {state : ExecState}
    {stack : List Frame}
    {constraints : ConstraintSet}
    (shapes : stack.map Frame.shape = state.stack.map Frame.shape) :
    ExecState.outline { state with stack, constraints } = state.outline := by
  have framesOf (frames : List Frame) :
      (frames.map fun frame => (frame.caller.map (·.number), frame.function.key)) =
        (frames.map Frame.shape).map fun frame =>
          (frame.caller.map (·.number), frame.function.key) := by
    rw [List.map_map]
    rfl
  unfold ExecState.outline
  rw [framesOf, framesOf state.stack, shapes]

namespace Execution

theorem objectsOf_eq_of_keys
    {first second : Execution}
    {place source : Nat}
    (keys : (first.heap.listing (first.stateAt place).space).map Prod.fst =
      (second.heap.listing (second.stateAt source).space).map Prod.fst) :
    first.objectsOf place = second.objectsOf source := by
  unfold Heap.listing at keys
  rw [Assoc.keys_mapValues, Assoc.keys_mapValues] at keys
  unfold objectsOf
  rw [Space.map_fst_objects, Space.map_fst_objects, keys]

/-- A state that is what it was, with the memory that it had. -/
structure Keeps (before after : Execution) (place : Nat) : Prop where
  state_eq : after.stateAt place = before.stateAt place
  listing_eq : after.heap.listing (before.stateAt place).space =
    before.heap.listing (before.stateAt place).space

section

variable
  {histories : List Updates}
  {before after : Execution}
  {place otherPlace : Nat}
  {guard : Expr}
  {objects : List MemoryObject}

theorem Keeps.imageOf?_eq
    (keeps : Keeps before after place)
    (object : MemoryObject) :
    after.imageOf? place object = before.imageOf? place object := by
  unfold imageOf? Heap.image?
  rw [keeps.state_eq, keeps.listing_eq]

theorem Keeps.objectsOf_eq
    (keeps : Keeps before after place) :
    after.objectsOf place = before.objectsOf place := by
  apply objectsOf_eq_of_keys
  rw [keeps.state_eq, keeps.listing_eq]

theorem Merged.size_eq
    (merged : Merged guard objects place otherPlace before after) :
    after.states.size = before.states.size := by
  rw [merged.states_eq, Array.size_setIfInBounds]

/-- A merge keeps every state but its receiver. -/
theorem Merged.keeps
    (sound : before.Sound histories)
    (merged : Merged guard objects place otherPlace before after)
    (present : place < before.states.size)
    {another : Nat}
    (presentToo : another < before.states.size)
    (apart : another ≠ place) :
    Keeps before after another where
  state_eq := by
    rw [merged.stateAt_eq, if_neg fun here => apart here.1]
  listing_eq :=
    merged.memory.elsewhere _ (sound.space_ne another presentToo place present apart)

/--
A merge does not change the outline of its receiver, so what could be merged before still can.
-/
theorem Merged.outline_eq
    (merged : Merged guard objects place otherPlace before after)
    (present : place < before.states.size) :
    (after.stateAt place).outline = (before.stateAt place).outline := by
  rw [merged.stateAt_eq, if_pos ⟨rfl, present⟩]
  exact ExecState.outline_eq_of_shapes merged.shapes_eq

/-- Nor the list of bound objects. -/
theorem Merged.objectsOf_eq
    (merged : Merged guard objects place otherPlace before after) :
    after.objectsOf place = before.objectsOf place := by
  apply objectsOf_eq_of_keys
  rw [merged.space_eq, merged.memory.keys_eq]

end

end Execution

/-! ## States that can be merged -/

namespace ConstraintSet

section

variable
  {histories : List Updates}
  {table : Table}
  {set : ConstraintSet}

theorem areBits_iff
    (registered : set.Registered histories table) :
    set.AreBits ↔ ∀ entry ∈ set.entries, entry.Bit := by
  constructor
  · intro bits entry member
    obtain ⟨typed, width⟩ := bits entry member
    refine ⟨fun part inside => ?_, width⟩
    obtain ⟨positive, matched⟩ := typed part inside
    exact ⟨((registered entry member).proper part inside).measured, matched, positive⟩
  · intro bits entry member
    have bit := bits entry member
    exact ⟨bit.typed.mono fun _ typed => ⟨typed.width_pos, typed.matched⟩, bit.width_eq⟩

/-- Constraints that were added are guards, as a constant false is never added. -/
theorem areGuards_of_areBits
    (registered : set.Registered histories table)
    (flat : set.Flat)
    (bits : set.AreBits) :
    ∀ entry ∈ set.entries, entry.IsGuard := by
  intro entry member
  have bit := (areBits_iff registered).1 bits entry member
  obtain ⟨alone, _, notFalse⟩ := flat entry member
  refine ⟨bit, bit.width_eq, ?_⟩
  rw [alone, List.forall_mem_singleton]
  exact notFalse

end

end ConstraintSet

namespace Execution

/-- A state that nothing but a missing text keeps from being merged. -/
structure Admissible (execution : Execution) (place : Nat) : Prop where
  present : place < execution.states.size
  numbered : (execution.stateAt place).patch ≠ none
  bits : (execution.stateAt place).constraints.AreBits
  filled : execution.IsFilled place
  writable : ∀ object, ∀ contents ∈ execution.imageOf? place object,
    contents.readOnly = false

section

variable
  {histories : List Updates}
  {execution before after : Execution}
  {place otherPlace : Nat}
  {guard : Expr}

/-- Merging two admissible states meets no fault if their constraints have texts. -/
theorem Admissible.smooth
    (sound : execution.Sound histories)
    (admissible : execution.Admissible place)
    (admissibleOther : execution.Admissible otherPlace)
    (texts : (execution.stateAt place).constraints.HaveTexts ∧
      (execution.stateAt otherPlace).constraints.HaveTexts) :
    execution.Smooth place otherPlace where
  fits := {
    guards := ConstraintSet.areGuards_of_areBits (sound.states place).constraints
      (sound.states place).flat admissible.bits
    guardsOther := ConstraintSet.areGuards_of_areBits (sound.states otherPlace).constraints
      (sound.states otherPlace).flat admissibleOther.bits
    numbered := ⟨admissible.numbered, admissibleOther.numbered⟩
    filled := fun object _ first isFirst second isSecond =>
      ⟨admissible.writable object first isFirst, admissible.filled object first isFirst,
        admissibleOther.filled object second isSecond⟩ }
  texts := texts

theorem Keeps.admissible
    (keeps : Keeps before after place)
    (size : after.states.size = before.states.size)
    (admissible : before.Admissible place) :
    after.Admissible place where
  present := by
    rw [size]
    exact admissible.present
  numbered := by
    rw [keeps.state_eq]
    exact admissible.numbered
  bits := by
    rw [keeps.state_eq]
    exact admissible.bits
  filled := by
    intro object contents shown
    rw [keeps.imageOf?_eq] at shown
    exact admissible.filled object contents shown
  writable := by
    intro object contents shown
    rw [keeps.imageOf?_eq] at shown
    exact admissible.writable object contents shown

/-- A state that took another in can be merged as before. -/
theorem Merged.admissible
    (sound : before.Sound histories)
    (soundAfter : after.Sound histories)
    (mergeable : before.Mergeable place otherPlace)
    (merged : Merged guard (before.differing place otherPlace) place otherPlace before after)
    (admissible : before.Admissible place)
    (admissibleOther : before.Admissible otherPlace) :
    after.Admissible place where
  present := by
    rw [merged.size_eq]
    exact admissible.present
  numbered := by
    rw [merged.stateAt_eq, if_pos ⟨rfl, admissible.present⟩]
    exact admissible.numbered
  bits := by
    rw [ConstraintSet.areBits_iff (soundAfter.states place).constraints]
    apply merged.reconciled.inherits Expr.Bit Expr.logical_bit
    · exact (ConstraintSet.areBits_iff (sound.states place).constraints).1 admissible.bits
    · exact (ConstraintSet.areBits_iff (sound.states otherPlace).constraints).1
        admissibleOther.bits
  filled := by
    intro object contents shown
    rcases merged.imageOf?_cases sound mergeable object with
      ⟨unchanged, _⟩ | ⟨first, second, image, isFirst, isSecond, isImage, joined⟩
    · rw [unchanged] at shown
      exact admissible.filled object contents shown
    · rw [isImage] at shown
      cases shown
      exact joined.fills (admissible.filled object first isFirst)
        (admissibleOther.filled object second isSecond)
  writable := by
    intro object contents shown
    rcases merged.imageOf?_cases sound mergeable object with
      ⟨unchanged, _⟩ | ⟨first, second, image, isFirst, isSecond, isImage, joined⟩
    · rw [unchanged] at shown
      exact admissible.writable object contents shown
    · rw [isImage] at shown
      cases shown
      rw [joined.rest_eq]
      exact admissible.writable object first isFirst

/-- The merged constraints have texts if those of both sides had. -/
theorem Merged.haveTexts
    (sound : before.Sound histories)
    (merged : Merged guard (before.differing place otherPlace) place otherPlace before after)
    (admissible : before.Admissible place)
    (admissibleOther : before.Admissible otherPlace)
    (texts : (before.stateAt place).constraints.HaveTexts)
    (textsOther : (before.stateAt otherPlace).constraints.HaveTexts) :
    (after.stateAt place).constraints.HaveTexts := by
  have bits := (ConstraintSet.areBits_iff (sound.states place).constraints).1
    admissible.bits
  have bitsOther := (ConstraintSet.areBits_iff (sound.states otherPlace).constraints).1
    admissibleOther.bits
  intro entry member
  exact (merged.reconciled.inherits _ Expr.logical_hasText
    (fun entry member => ⟨bits entry member, texts entry member⟩)
    (fun entry member => ⟨bitsOther entry member, textsOther entry member⟩) entry member).2

/-- A merge moves no state, and binds and unbinds no object. -/
theorem Merged.stands
    (sound : before.Sound histories)
    {objects : List MemoryObject}
    (merged : Merged guard objects place otherPlace before after)
    (present : place < before.states.size)
    {another : Nat}
    (presentToo : another < before.states.size) :
    (after.stateAt another).outline = (before.stateAt another).outline ∧
      after.objectsOf another = before.objectsOf another := by
  by_cases here : another = place
  · rw [here]
    exact ⟨merged.outline_eq present, merged.objectsOf_eq⟩
  · have keeps := merged.keeps sound present presentToo here
    rw [keeps.state_eq]
    exact ⟨rfl, keeps.objectsOf_eq⟩

end

/-- Different states that stand at the same place and can be merged. -/
structure Alike (execution : Execution) (places : List Nat) : Prop where
  once : places.Nodup
  admissible : ∀ place ∈ places, execution.Admissible place
  outline_eq : ∀ first ∈ places, ∀ second ∈ places,
    (execution.stateAt first).outline = (execution.stateAt second).outline
  objects_eq : ∀ first ∈ places, ∀ second ∈ places,
    execution.objectsOf first = execution.objectsOf second

section

variable
  {histories : List Updates}
  {execution before after : Execution}
  {places : List Nat}
  {place otherPlace : Nat}
  {guard : Expr}

/-- Any two members of a family can be merged. -/
theorem Alike.mergeable
    (alike : execution.Alike places)
    (member : place ∈ places)
    (memberToo : otherPlace ∈ places) :
    execution.Mergeable place otherPlace where
  comparable := (ExecState.comparable_iff _ _).2
    (alike.outline_eq place member otherPlace memberToo)
  objects_eq := alike.objects_eq place member otherPlace memberToo

/-- The states that are left after a merge are alike again. -/
theorem Alike.merged
    (sound : before.Sound histories)
    (soundAfter : after.Sound histories)
    (alike : before.Alike places)
    (member : place ∈ places)
    (memberToo : otherPlace ∈ places)
    (merged : Merged guard (before.differing place otherPlace) place otherPlace
      before after) :
    after.Alike (places.erase otherPlace) := by
  have present := (alike.admissible place member).present
  have stands (another : Nat) (listed : another ∈ places) :=
    merged.stands sound present (alike.admissible another listed).present
  constructor
  · exact alike.once.erase otherPlace
  · intro another left
    have admissible := alike.admissible another (List.mem_of_mem_erase left)
    by_cases here : another = place
    · rw [here] at admissible ⊢
      exact merged.admissible sound soundAfter (alike.mergeable member memberToo) admissible
        (alike.admissible otherPlace memberToo)
    · exact (merged.keeps sound present admissible.present here).admissible merged.size_eq
        admissible
  · intro first left second leftToo
    have listed := List.mem_of_mem_erase left
    have listedToo := List.mem_of_mem_erase leftToo
    rw [(stands first listed).1, (stands second listedToo).1]
    exact alike.outline_eq first listed second listedToo
  · intro first left second leftToo
    have listed := List.mem_of_mem_erase left
    have listedToo := List.mem_of_mem_erase leftToo
    rw [(stands first listed).2, (stands second listedToo).2]
    exact alike.objects_eq first listed second listedToo

/--
After a merge the constraints of those that are left still have texts: the new ones are made of
the old ones.
-/
theorem Alike.haveTexts
    (sound : before.Sound histories)
    (alike : before.Alike places)
    (member : place ∈ places)
    (memberToo : otherPlace ∈ places)
    (merged : Merged guard (before.differing place otherPlace) place otherPlace
      before after)
    (texts : ∀ another ∈ places, (before.stateAt another).constraints.HaveTexts) :
    ∀ another ∈ places.erase otherPlace, (after.stateAt another).constraints.HaveTexts := by
  intro another left
  have listed := List.mem_of_mem_erase left
  by_cases here : another = place
  · rw [here]
    exact merged.haveTexts sound (alike.admissible place member)
      (alike.admissible otherPlace memberToo) (texts place member)
      (texts otherPlace memberToo)
  · have keeps := merged.keeps sound (alike.admissible place member).present
      (alike.admissible another listed).present here
    rw [keeps.state_eq]
    exact texts another listed

/-- Merging two states that are alike succeeds exactly if their constraints have texts. -/
theorem Alike.moves_merge
    {safe : Prop}
    (sound : execution.Sound histories)
    (alike : execution.Alike places)
    (member : place ∈ places)
    (memberToo : otherPlace ∈ places)
    (texts : safe → (execution.stateAt place).constraints.HaveTexts ∧
      (execution.stateAt otherPlace).constraints.HaveTexts) :
    Moves (Evolves histories) (merge place otherPlace) execution
      (fun answer later =>
        answer = true ∧
          ((execution.stateAt place).constraints.HaveTexts ∧
            (execution.stateAt otherPlace).constraints.HaveTexts) ∧
          ∃ guard, Merged guard (execution.differing place otherPlace) place otherPlace
            execution later) safe := by
  have admissible := alike.admissible place member
  refine (Execution.moves_merge sound admissible.present otherPlace fun isSafe =>
    admissible.smooth sound (alike.admissible otherPlace memberToo) (texts isSafe)).mono ?_
  intro answer later _ answered
  cases answer with
  | true =>
      rw [if_pos rfl] at answered
      exact ⟨rfl, answered.2⟩
  | false =>
      rw [if_neg Bool.false_ne_true] at answered
      exact (answered.1 (alike.mergeable member memberToo)).elim

end

end Execution

end Diverge
