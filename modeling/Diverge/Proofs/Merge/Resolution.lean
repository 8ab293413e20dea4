import Diverge.Proofs.Merge.Twins
import Diverge.Proofs.State.Layout

/-!
# Resolving addresses in merged states

A space resolves an address to the first object of its listing that contains it.  The
listing is sorted by the numbers of the objects, and the sort is stable: so this is the
object of the least number among those that contain the address, and of several with that
number the one that was bound first (`Space.isFirstAt_resolve`).  A merge compares the
listings of the two states and binds no object that was not bound before.  If it is made,
an address therefore resolves alike in both states, and as it did before
(`Execution.resolve_merge`).
-/

namespace Diverge

open Stateful

/-! ## The first object at an address -/

/--
The object, if there is one, of the least number among those that contain an address, the
first of that number in the order of the list.
-/
def IsFirstAt (address : Int) (objects : List MemoryObject) : Option MemoryObject → Prop
  | none => ∀ object ∈ objects, object.contains address = false
  | some object =>
      (∀ other ∈ objects, other.contains address = true → object.number ≤ other.number) ∧
        objects.find? (fun other =>
          other.number = object.number ∧ other.contains address = true) = some object

namespace MemoryObject

/-- Objects in the order of their numbers, those of one number in the order they had. -/
def sorted (objects : List MemoryObject) : List MemoryObject :=
  objects.mergeSort fun left right => left.number ≤ right.number

theorem number_le_trans
    (first second third : MemoryObject)
    (before : decide (first.number ≤ second.number) = true)
    (after : decide (second.number ≤ third.number) = true) :
    decide (first.number ≤ third.number) = true :=
  decide_eq_true ((of_decide_eq_true before).trans (of_decide_eq_true after))

theorem number_le_total
    (left right : MemoryObject) :
    (decide (left.number ≤ right.number) || decide (right.number ≤ left.number)) = true := by
  simpa using le_total left.number right.number

theorem perm_sorted
    (objects : List MemoryObject) :
    (sorted objects).Perm objects :=
  List.mergeSort_perm objects _

theorem pairwise_sorted
    (objects : List MemoryObject) :
    (sorted objects).Pairwise fun left right => left.number ≤ right.number :=
  (List.pairwise_mergeSort number_le_trans number_le_total objects).imp of_decide_eq_true

/-- Sorting leaves the objects of one number in their order. -/
theorem filter_sorted
    (objects : List MemoryObject)
    (number : Int) :
    (sorted objects).filter (·.number = number) =
      objects.filter (·.number = number) := by
  have kept : (objects.filter (·.number = number)).Sublist (sorted objects) := by
    refine List.sublist_mergeSort number_le_trans number_le_total ?_ List.filter_sublist
    refine List.pairwise_of_forall_mem_list ?_
    intro left isLeft right isRight
    have leftNumber : left.number = number := by simpa using (List.mem_filter.1 isLeft).2
    have rightNumber : right.number = number := by simpa using (List.mem_filter.1 isRight).2
    exact decide_eq_true (leftNumber.trans rightNumber.symm).le
  have keptToo := kept.filter (·.number = number)
  rw [List.filter_filter] at keptToo
  simp only [Bool.and_self] at keptToo
  refine (keptToo.eq_of_length ?_).symm
  exact ((perm_sorted objects).filter _).length_eq.symm

section

variable
  {address : Int}
  {objects : List MemoryObject}
  {object : MemoryObject}
  (found : (sorted objects).find? (·.contains address) = some object)

include found

/-- What is found first has the least number. -/
theorem number_le_of_find?
    {other : MemoryObject}
    (member : other ∈ objects)
    (contains : other.contains address = true) :
    object.number ≤ other.number := by
  obtain ⟨_, before, after, split, outside⟩ := List.find?_eq_some_iff_append.1 found
  have listed : other ∈ before ++ object :: after := by
    rw [← split]
    exact (perm_sorted objects).mem_iff.2 member
  rcases List.mem_append.1 listed with earlier | later
  · have isOutside := outside other earlier
    simp [contains] at isOutside
  · rcases List.mem_cons.1 later with rfl | beyond
    · exact le_refl _
    · have ordered := pairwise_sorted objects
      rw [split] at ordered
      exact (List.pairwise_cons.1 (List.pairwise_append.1 ordered).2.1).1 other beyond

/-- What is found first comes first among those with its number. -/
theorem find?_eq_of_find?_sorted :
    objects.find? (fun other =>
      other.number = object.number ∧ other.contains address = true) = some object := by
  obtain ⟨contains, before, after, split, outside⟩ := List.find?_eq_some_iff_append.1 found
  -- The search may be confined to one number, where sorting changes nothing.
  have confined (list : List MemoryObject) :
      list.find? (fun other =>
          other.number = object.number ∧ other.contains address = true) =
        (list.filter (·.number = object.number)).find? (·.contains address) := by
    rw [List.find?_filter]
    simp
  rw [confined, ← filter_sorted, ← confined, split, List.find?_eq_some_iff_append]
  refine ⟨by simp [contains], before, after, rfl, fun other earlier => ?_⟩
  have isOutside := outside other earlier
  simp_all

end

/-- Searching the objects in the order of their numbers finds the first one at the address. -/
theorem isFirstAt_find?
    (address : Int)
    (objects : List MemoryObject) :
    IsFirstAt address objects ((sorted objects).find? (·.contains address)) := by
  cases found : (sorted objects).find? (·.contains address) with
  | none =>
      intro object member
      have listed := (perm_sorted objects).mem_iff.2 member
      simpa using List.find?_eq_none.1 found object listed
  | some object =>
      exact ⟨fun other => number_le_of_find? found, find?_eq_of_find?_sorted found⟩

end MemoryObject

/-- Resolving an address looks at the bound objects only, not at their contents. -/
theorem Space.map_fst_resolve
    (space : Space)
    (address : Int) :
    (space.resolve address).map Prod.fst =
      (space.objects.map Prod.fst).find? (·.contains address) := by
  unfold Space.resolve
  rw [List.find?_map]
  rfl

/-- A space resolves an address to the first object that contains it. -/
theorem Space.isFirstAt_resolve
    (space : Space)
    (address : Int) :
    IsFirstAt address (space.bindings.map Prod.fst)
      ((space.resolve address).map Prod.fst) := by
  rw [Space.map_fst_resolve, Space.map_fst_objects]
  exact MemoryObject.isFirstAt_find? address _

namespace Execution

/-! ## Merged states -/

/-- Executions of the same layout bind the same objects. -/
theorem keys_spaceOf_of_layout
    {before after : Execution}
    (same : after.layout = before.layout)
    (place : Nat) :
    (after.spaceOf place).bindings.map Prod.fst =
      (before.spaceOf place).bindings.map Prod.fst := by
  have bound : after.layout.bound place = before.layout.bound place := by rw [same]
  exact bound

/-- Only states that list the same objects are merged. -/
theorem listed_eq_of_merge
    {place otherPlace : Nat}
    {execution later : Execution}
    (merged : merge place otherPlace execution = .ok true later) :
    (execution.spaceOf place).objects.map Prod.fst =
      (execution.spaceOf otherPlace).objects.map Prod.fst := by
  unfold merge at merged
  rw [get_bind, get_bind] at merged
  obtain ⟨_, traced, told, merged⟩ := bind_eq_ok.1 merged
  split at merged
  next comparable =>
      obtain ⟨_, listed, toldList, merged⟩ := bind_eq_ok.1 merged
      rw [get_bind] at merged
      obtain ⟨outcome, compared, toldMemory, merged⟩ := bind_eq_ok.1 merged
      have same : listed.layout = execution.layout :=
        ((stays_traceOverlap _ _).of_ok toldList).trans ((stays_trace _ _).of_ok told)
      have agreed := ((returns_compareMemory _ _ _).2 toldMemory).1
      rw [Comparison.mutated_ofObjects] at agreed
      split at agreed
      next listedAlike =>
          rw [Space.map_fst_objects, Space.map_fst_objects] at listedAlike ⊢
          have keysOf (space : Nat) :
              (listed.heap.spaceAt space).bindings.map Prod.fst =
                (execution.heap.spaceAt space).bindings.map Prod.fst :=
            congrFun (congrArg Layout.keys same) space
          rw [keysOf, keysOf] at listedAlike
          exact listedAlike
      next =>
          rw [agreed] at merged
          cases (pure_eq_ok.1 merged).1
  next => cases (pure_eq_ok.1 merged).1

/--
If two states are merged, an address resolves alike in both of them, before and after: to the
first object that contains it among those that either of them binds.
-/
theorem resolve_merge
    {place otherPlace : Nat}
    {execution later : Execution}
    (merged : merge place otherPlace execution = .ok true later)
    (address : Int) :
    ∃ outcome : Option MemoryObject,
      ∀ moment ∈ [execution, later], ∀ side ∈ [place, otherPlace],
        ((moment.spaceOf side).resolve address).map Prod.fst = outcome ∧
          IsFirstAt address ((moment.spaceOf side).bindings.map Prod.fst) outcome := by
  have same : later.layout = execution.layout := (stays_merge place otherPlace).of_ok merged
  refine ⟨((execution.spaceOf place).resolve address).map Prod.fst, ?_⟩
  intro moment isMoment side isSide
  suffices resolved : ((moment.spaceOf side).resolve address).map Prod.fst =
      ((execution.spaceOf place).resolve address).map Prod.fst by
    refine ⟨resolved, ?_⟩
    rw [← resolved]
    exact Space.isFirstAt_resolve _ address
  have unchanged : (moment.spaceOf side).objects.map Prod.fst =
      (execution.spaceOf side).objects.map Prod.fst := by
    rw [Space.map_fst_objects, Space.map_fst_objects]
    rcases List.mem_cons.1 isMoment with rfl | after
    · rfl
    · rw [List.mem_singleton.1 after, keys_spaceOf_of_layout same]
  rw [Space.map_fst_resolve, Space.map_fst_resolve, unchanged]
  rcases List.mem_cons.1 isSide with rfl | other
  · rfl
  · rw [List.mem_singleton.1 other, listed_eq_of_merge merged]

end Execution

open Execution OverlappingPair in
/--
Two objects of one number both contain an address; in a state and a fork that it was merged
with, the address resolves to the one that was bound first.
-/
theorem resolve_merge_overlappingPair :
    ∃ child middle later, fork 0 execution = .ok child middle ∧
      merge 0 child middle = .ok true later ∧
        ∀ moment ∈ [middle, later], ∀ side ∈ [0, child],
          ((moment.spaceOf side).resolve 1).map Prod.fst = some first := by
  have neat := made.neat TwoBounds.reachable
  obtain ⟨child, middle, forks, present, twins, persists⟩ :=
    exists_fork (show 0 < execution.states.size by decide)
  have constraints : (middle.stateAt 0).constraints = (execution.stateAt 0).constraints := by
    rw [persists.state_eq]
  have texts := (ConstraintSet.haveTexts_iff neat.registered).2 areShort
  rw [← constraints] at neat texts
  obtain ⟨⟨_, later, merges⟩, holds⟩ :=
    twins.returns_merge present neat.leaves neat.distinct texts
  obtain ⟨rfl, _⟩ := holds merges
  obtain ⟨outcome, alike⟩ := resolve_merge merges 1
  have isFirst := (alike middle List.mem_cons_self 0 List.mem_cons_self).2
  rw [persists.bindings_eq] at isFirst
  have found : outcome = some first := by
    cases outcome with
    | none => exact Bool.noConfusion (isFirst first List.mem_cons_self)
    | some object =>
        obtain ⟨_, isFound⟩ := isFirst
        have member : object ∈ [first, second] := List.mem_of_find?_eq_some isFound
        have number : object.number = 7 := by
          rcases List.mem_cons.1 member with rfl | other
          · rfl
          · rw [List.mem_singleton.1 other]
            rfl
        rw [number] at isFound
        exact isFound.symm.trans rfl
  exact ⟨child, middle, later, forks, merges,
    fun moment isMoment side isSide => found ▸ (alike moment isMoment side isSide).1⟩

end Diverge
