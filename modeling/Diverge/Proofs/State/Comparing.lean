import Diverge.State.Merge
import Diverge.Proofs.Guards
import Diverge.Proofs.Memory.Ownership

/-!
# What two states share

Two spaces are compared by their listings.  If they list the same objects, those
that they bind to different contents are the ones that a merge has to merge
(`Comparison.mem_changed`).  The constraints of two states fall into three parts,
those of both and those of either side.  The parts are told apart by identity, which
among registered expressions is equality.
-/

namespace Diverge

/-! ## Shared objects -/

namespace Comparison

/-- The objects to which two listings give different contents, place by place. -/
def changed : Assoc MemoryObject Nat → Assoc MemoryObject Nat → List MemoryObject
  | (object, contents) :: firsts, (_, other) :: seconds =>
      if contents = other then changed firsts seconds
      else object :: changed firsts seconds
  | _, _ => []

/-- A comparison succeeds if both sides list the same objects. -/
theorem mutated_ofObjects
    (firsts seconds : Assoc MemoryObject Nat) :
    (ofObjects firsts seconds).mutated =
      if firsts.map Prod.fst = seconds.map Prod.fst then some (changed firsts seconds)
      else none := by
  induction firsts generalizing seconds with
  | nil =>
      cases seconds with
      | nil => rfl
      | cons second seconds => rfl
  | cons first firsts inductionHypothesis =>
      obtain ⟨object, contents⟩ := first
      cases seconds with
      | nil => rfl
      | cons second seconds =>
          obtain ⟨other, otherContents⟩ := second
          have rest := inductionHypothesis seconds
          by_cases same : object = other
          · by_cases shared : contents = otherContents
            · simp [ofObjects, changed, same, shared, rest]
            · by_cases keys : firsts.map Prod.fst = seconds.map Prod.fst
              · simp [ofObjects, changed, same, shared, rest, keys]
              · simp [ofObjects, same, shared, rest, keys]
          · simp [ofObjects, same]

theorem changed_sublist
    (firsts seconds : Assoc MemoryObject Nat) :
    (changed firsts seconds).Sublist (firsts.map Prod.fst) := by
  induction firsts generalizing seconds with
  | nil => exact List.nil_sublist _
  | cons first firsts inductionHypothesis =>
      cases seconds with
      | nil => exact List.nil_sublist _
      | cons second seconds =>
          have rest := inductionHypothesis seconds
          simp only [changed, List.map_cons]
          split
          · exact rest.cons _
          · exact rest.cons_cons _

/-- Two listings of the same objects differ where they bind different contents. -/
theorem mem_changed
    {firsts seconds : Assoc MemoryObject Nat}
    (keys : firsts.map Prod.fst = seconds.map Prod.fst)
    (once : firsts.HasOnce)
    (object : MemoryObject) :
    object ∈ changed firsts seconds ↔ firsts.get? object ≠ seconds.get? object := by
  induction firsts generalizing seconds with
  | nil =>
      cases seconds with
      | nil => simp [changed]
      | cons second seconds => simp at keys
  | cons first firsts inductionHypothesis =>
      obtain ⟨key, contents⟩ := first
      cases seconds with
      | nil => simp at keys
      | cons second seconds =>
          obtain ⟨other, otherContents⟩ := second
          simp only [List.map_cons, List.cons.injEq] at keys
          obtain ⟨rfl, keys⟩ := keys
          simp only [Assoc.HasOnce, List.map_cons, List.nodup_cons] at once
          have rest := inductionHypothesis keys once.2
          by_cases here : key = object
          · subst here
            have absent : key ∉ changed firsts seconds :=
              fun member => once.1 ((changed_sublist firsts seconds).subset member)
            by_cases shared : contents = otherContents
            · simp [changed, Assoc.get?, shared, absent]
            · simp [changed, Assoc.get?, shared]
          · have different : ¬ object = key := fun same => here same.symm
            by_cases shared : contents = otherContents
            · simp [changed, Assoc.get?, shared, here, rest]
            · simp [changed, Assoc.get?, shared, here, different, rest]

end Comparison

/-- The listing of a space has its bindings, in the order of their numbers. -/
theorem Space.objects_perm
    (space : Space) :
    space.objects.Perm space.bindings :=
  List.mergeSort_perm _ _

/-- What a space lists is what it binds, in the order of the numbers. -/
theorem Space.map_fst_objects
    (space : Space) :
    space.objects.map Prod.fst =
      (space.bindings.map Prod.fst).mergeSort fun left right => left.number ≤ right.number :=
  List.map_mergeSort fun _ _ _ _ => rfl

theorem Space.hasOnce_objects
    {space : Space}
    (once : space.bindings.HasOnce) :
    Assoc.HasOnce space.objects :=
  (space.objects_perm.map Prod.fst).nodup_iff.2 once

theorem Space.get?_objects
    {space : Space}
    (once : space.bindings.HasOnce)
    (object : MemoryObject) :
    Assoc.get? space.objects object = space.bindings.get? object := by
  have onceListed := Space.hasOnce_objects once
  cases found : space.bindings.get? object with
  | some contents =>
      exact onceListed.get?_of_mem (space.objects_perm.mem_iff.2 (Assoc.mem_of_get? found))
  | none =>
      cases listed : Assoc.get? space.objects object with
      | none => rfl
      | some contents =>
          have member := space.objects_perm.mem_iff.1 (Assoc.mem_of_get? listed)
          rw [once.get?_of_mem member] at found
          cases found

/-! ## Shared constraints -/

namespace ConstraintSet

section

variable
  {histories : List Updates}
  {table : Table}
  {first second : ConstraintSet}
  {expression : Expr}

/-- Among registered expressions, one that is the same as an entry is an entry. -/
theorem any_same_iff
    (supports : table.Supports histories)
    {entries : List Expr}
    (registered : ∀ entry ∈ entries, entry.Registered histories table)
    (registeredToo : expression.Registered histories table) :
    entries.any (·.same expression) = true ↔ expression ∈ entries := by
  rw [List.any_eq_true]
  constructor
  · rintro ⟨entry, member, same⟩
    rw [← Expr.Registered.eq_of_same supports (registered entry member) registeredToo same]
    exact member
  · intro member
    exact ⟨expression, member, by simp [Expr.same]⟩

section

variable
  (supports : table.Supports histories)
  (registeredFirst : first.Registered histories table)
  (registeredSecond : second.Registered histories table)

include supports registeredFirst registeredSecond

/-- The common constraints are those of both sets. -/
theorem mem_common :
    expression ∈ (first.overlap second).common ↔
      expression ∈ first.entries ∧ expression ∈ second.entries := by
  unfold overlap
  rw [List.mem_filter]
  constructor
  · rintro ⟨member, contained⟩
    exact ⟨member, (any_same_iff supports registeredSecond
      (registeredFirst expression member)).1 contained⟩
  · rintro ⟨member, memberToo⟩
    exact ⟨member, (any_same_iff supports registeredSecond
      (registeredFirst expression member)).2 memberToo⟩

theorem registered_common :
    ∀ entry ∈ (first.overlap second).common, entry.Registered histories table :=
  fun entry member => registeredFirst entry
    ((mem_common supports registeredFirst registeredSecond).1 member).1

/-- What is not shared. -/
theorem isOwn_iff
    (registered : expression.Registered histories table) :
    (!(first.overlap second).common.any (·.same expression)) = true ↔
      ¬ (expression ∈ first.entries ∧ expression ∈ second.entries) := by
  rw [Bool.not_eq_true', ← Bool.not_eq_true, any_same_iff supports
    (registered_common supports registeredFirst registeredSecond) registered,
    mem_common supports registeredFirst registeredSecond]

/-- What only the first set has is what the second one lacks. -/
theorem mem_firstOnly :
    expression ∈ (first.overlap second).firstOnly ↔
      expression ∈ first.entries ∧ expression ∉ second.entries := by
  have own (member : expression ∈ first.entries) :=
    isOwn_iff supports registeredFirst registeredSecond (registeredFirst expression member)
  unfold overlap at own ⊢
  rw [List.mem_filter]
  constructor
  · rintro ⟨member, alone⟩
    exact ⟨member, fun shared => (own member).1 alone ⟨member, shared⟩⟩
  · rintro ⟨member, absent⟩
    exact ⟨member, (own member).2 fun shared => absent shared.2⟩

theorem mem_secondOnly :
    expression ∈ (first.overlap second).secondOnly ↔
      expression ∈ second.entries ∧ expression ∉ first.entries := by
  have own (member : expression ∈ second.entries) :=
    isOwn_iff supports registeredFirst registeredSecond (registeredSecond expression member)
  unfold overlap at own ⊢
  rw [List.mem_filter]
  constructor
  · rintro ⟨member, alone⟩
    exact ⟨member, fun shared => (own member).1 alone ⟨shared, member⟩⟩
  · rintro ⟨member, absent⟩
    exact ⟨member, (own member).2 fun shared => absent shared.1⟩

/-- A property of all entries is one of the parts. -/
theorem forall_first_iff
    (property : Expr → Prop) :
    (∀ entry ∈ first.entries, property entry) ↔
      (∀ entry ∈ (first.overlap second).common, property entry) ∧
        ∀ entry ∈ (first.overlap second).firstOnly, property entry := by
  have inCommon (entry : Expr) := @mem_common _ _ _ _ entry supports registeredFirst
    registeredSecond
  have inFirst (entry : Expr) := @mem_firstOnly _ _ _ _ entry supports registeredFirst
    registeredSecond
  simp only [inCommon, inFirst]
  constructor
  · intro all
    exact ⟨fun entry member => all entry member.1, fun entry member => all entry member.1⟩
  · rintro ⟨shared, own⟩ entry member
    by_cases inSecond : entry ∈ second.entries
    · exact shared entry ⟨member, inSecond⟩
    · exact own entry ⟨member, inSecond⟩

/-- What holds of all constraints of the second set holds of the common ones and of its own. -/
theorem forall_second_iff
    (property : Expr → Prop) :
    (∀ entry ∈ second.entries, property entry) ↔
      (∀ entry ∈ (first.overlap second).common, property entry) ∧
        ∀ entry ∈ (first.overlap second).secondOnly, property entry := by
  have inCommon (entry : Expr) := @mem_common _ _ _ _ entry supports registeredFirst
    registeredSecond
  have inSecond (entry : Expr) := @mem_secondOnly _ _ _ _ entry supports registeredFirst
    registeredSecond
  simp only [inCommon, inSecond]
  constructor
  · intro all
    exact ⟨fun entry member => all entry member.2, fun entry member => all entry member.1⟩
  · rintro ⟨shared, own⟩ entry member
    by_cases inFirst : entry ∈ first.entries
    · exact shared entry ⟨inFirst, member⟩
    · exact own entry ⟨member, inFirst⟩

end

end

end ConstraintSet

end Diverge
