import Diverge.Proofs.Memory.Ownership

/-!
# Opening contents for writing

A space that writes an object first makes sure that it owns the contents.  If it
does, they are written in place, and the change shows in this space alone, under
this object alone.  If not, a copy takes their place, which shows what they showed.
-/

namespace Diverge

open Stateful

/-- A byte that is written replaces one byte, or none if there is a fault. -/
theorem Contents.writeByte_run
    (offset : Int)
    (value : Expr)
    (contents : Contents) :
    Contents.writeByte offset value contents =
      if value.width = 8 then
        match Sequence.replace contents.bytes offset value with
        | .ok bytes => .ok () { contents with bytes }
        | .error fault => .error fault contents
      else .error (.telling .byteWidth value.width) contents := by
  unfold Contents.writeByte
  by_cases byte : value.width = 8
  · simp only [byte, ne_eq, not_true_eq_false, if_false, if_true, get_bind]
    cases Sequence.replace contents.bytes offset value with
    | ok bytes => rfl
    | error fault => rfl
  · simp only [byte, ne_eq, not_false_eq_true, if_true, if_false]
    rfl

namespace Heap

/-! ## Binding and writing as one operation -/

/-- Bind an object to contents that are taken up for it. -/
def bindFresh (space : Nat) (object : MemoryObject) (contents : Contents) : HeapM Unit := do
  bind space object (← addContents contents.copy)

/-- Write an object on what is given for writing it. -/
def update (space : Nat) (object : MemoryObject) (write : Nat → HeapM Unit) :
    HeapM Unit := do
  match (← get).find? space object with
  | none => throw (.absent "read_only")
  | some contents => write (← writeable space object contents)

theorem bindFresh_run
    (heap : Heap)
    (space : Nat)
    (object : MemoryObject)
    (contents : Contents) :
    bindFresh space object contents heap =
      .ok () ((heap.pushContents contents.copy).bound space object heap.contents.size) := by
  have free : ((heap.pushContents contents.copy).contentsAt
      heap.contents.size).owner = 0 := by
    rw [contentsAt_pushContents_self]
    rfl
  exact (bind_of_ok rfl).trans (bind_run free)

/-- Contents that are taken up may be bound. -/
theorem Owned.bindFresh
    {heap : Heap}
    (owned : heap.Owned)
    (space : Nat)
    (object : MemoryObject)
    (contents : Contents) :
    ((heap.pushContents contents.copy).bound space object heap.contents.size).Owned := by
  refine (owned.pushContents rfl).bound ?_ ?_
  · rw [size_contents_pushContents]
    exact Nat.lt_succ_self _
  · rw [contentsAt_pushContents_self]
    rfl

/-! ## Changes in place -/

/-- The space binds the object to contents that it owns. -/
structure Grants
    (heap : Heap) (space : Nat) (object : MemoryObject) (identity : Nat) : Prop where
  owned : heap.Owned
  binds : heap.Binds space object identity
  owner : (heap.contentsAt identity).owner = (heap.spaceAt space).key

section

variable {heap : Heap} {space : Nat} {object : MemoryObject} {identity : Nat}

theorem Grants.withTable
    (grants : heap.Grants space object identity)
    (table : Table) :
    Grants { heap with table } space object identity :=
  ⟨grants.owned.withTable table, grants.binds, grants.owner⟩

/-- What a space shows of an object that it may write are the contents granted. -/
theorem Grants.image?_eq
    (grants : heap.Grants space object identity) :
    heap.image? space object = some (heap.contentsAt identity).copy := by
  rw [Heap.image?_eq, grants.owned.find?_of_binds grants.binds]
  rfl

theorem Grants.contentsAt_setContents_self
    (grants : heap.Grants space object identity)
    (changed : Contents) :
    (heap.setContents identity changed).contentsAt identity = changed := by
  rw [Heap.contentsAt_setContents]
  exact if_pos ⟨rfl, grants.owned.bound_lt grants.binds⟩

theorem owner_setContents
    {changed : Contents}
    (sameOwner : changed.owner = (heap.contentsAt identity).owner)
    (other : Nat) :
    ((heap.setContents identity changed).contentsAt other).owner =
      (heap.contentsAt other).owner := by
  rw [contentsAt_setContents]
  split
  · rename_i here
    rw [here.1, sameOwner]
  · rfl

/-- Changed bytes leave the ownership of contents alone. -/
theorem Owned.setContents
    (owned : heap.Owned)
    {changed : Contents}
    (sameOwner : changed.owner = (heap.contentsAt identity).owner) :
    (heap.setContents identity changed).Owned where
  key_pos := owned.key_pos
  key_lt := owned.key_lt
  owner_lt := by
    intro contents
    rw [owner_setContents sameOwner]
    exact owned.owner_lt contents
  once := owned.once
  bound_lt := by
    intro space object contents binds
    rw [size_contents_setContents]
    exact owned.bound_lt binds
  owner_pos := by
    intro space object contents binds
    rw [owner_setContents sameOwner]
    exact owned.owner_pos binds
  alone := by
    intro space object contents other another binds owner bindsToo
    rw [owner_setContents sameOwner] at owner
    exact owned.alone binds owner bindsToo

/-- Contents that were written may be written again. -/
theorem Grants.setContents
    (grants : heap.Grants space object identity)
    {changed : Contents}
    (sameOwner : changed.owner = (heap.contentsAt identity).owner) :
    (heap.setContents identity changed).Grants space object identity := by
  refine ⟨grants.owned.setContents sameOwner, grants.binds, ?_⟩
  rw [owner_setContents sameOwner]
  exact grants.owner

/-- Only the contents of one identity changed, and neither the object nor the owner. -/
structure Rewrites (target : Nat) (before after : Heap) : Prop where
  spaces_eq : after.spaces = before.spaces
  contentsAt_eq : ∀ other ≠ target, after.contentsAt other = before.contentsAt other
  rest_eq : after.contentsAt target =
    { before.contentsAt target with bytes := (after.contentsAt target).bytes }

theorem Rewrites.spaceAt_eq
    {later : Heap}
    (rewrites : heap.Rewrites identity later)
    (other : Nat) :
    later.spaceAt other = heap.spaceAt other := by
  unfold spaceAt
  rw [rewrites.spaces_eq]

theorem Rewrites.refl
    (target : Nat)
    (heap : Heap) :
    heap.Rewrites target heap :=
  ⟨rfl, fun _ _ => rfl, rfl⟩

/-- Rewriting the same contents twice is rewriting them. -/
theorem Rewrites.trans
    {target : Nat}
    ⦃first second third : Heap⦄
    (before : first.Rewrites target second)
    (after : second.Rewrites target third) :
    first.Rewrites target third := by
  constructor
  · rw [after.spaces_eq, before.spaces_eq]
  · intro other different
    rw [after.contentsAt_eq other different, before.contentsAt_eq other different]
  · rw [after.rest_eq, before.rest_eq]

theorem rewrites_withTable
    (target : Nat)
    (heap : Heap)
    (table : Table) :
    heap.Rewrites target { heap with table } :=
  ⟨rfl, fun _ _ => rfl, rfl⟩

/-- Writing granted contents rewrites nothing else. -/
theorem Grants.rewrites_setContents
    (grants : heap.Grants space object identity)
    (bytes : List Expr) :
    heap.Rewrites identity
      (heap.setContents identity { heap.contentsAt identity with bytes }) := by
  constructor
  · rfl
  · intro other different
    rw [Heap.contentsAt_setContents]
    exact if_neg fun here => different here.1
  · rw [grants.contentsAt_setContents_self]

/-- A change in place shows in one space, under one object. -/
theorem Grants.listing_of_rewrites
    (grants : heap.Grants space object identity)
    {later : Heap}
    (rewrites : heap.Rewrites identity later)
    (other : Nat) :
    later.listing other =
      if other = space then
        (heap.listing space).put object (later.contentsAt identity).copy
      else heap.listing other := by
  have elsewhere {other : Nat} {another : MemoryObject} {contents : Nat}
      (binds : heap.Binds other another contents)
      (apart : other ≠ space ∨ another ≠ object) :
      later.contentsAt contents = heap.contentsAt contents := by
    refine rewrites.contentsAt_eq contents ?_
    rintro rfl
    obtain ⟨sameSpace, sameObject⟩ := grants.owned.alone grants.binds grants.owner binds
    exact apart.elim (· sameSpace) (· sameObject)
  unfold listing
  rw [rewrites.spaceAt_eq]
  split
  · rename_i here
    subst here
    exact (grants.owned.once other).mapValues_eq_put grants.binds _ _
      (fun entry member different => by
        simp only [elsewhere (show heap.Binds other entry.1 entry.2 from member)
          (Or.inr different)])
  · rename_i away
    refine List.map_congr_left fun entry member => ?_
    simp only [elsewhere (show heap.Binds other entry.1 entry.2 from member)
      (Or.inl away)]

/-! ## Opening -/

/--
The contents of an object were opened for writing: they are granted under `target`,
and nothing else has changed that shows.
-/
structure Opened
    (heap : Heap)
    (space : Nat)
    (object : MemoryObject)
    (target : Nat)
    (later : Heap) : Prop where
  grants : later.Grants space object target
  listing_eq : ∀ other, later.listing other = heap.listing other
  table_eq : later.table = heap.table
  size_spaces_eq : later.spaces.size = heap.spaces.size
  spaceAt_eq : ∀ other ≠ space, later.spaceAt other = heap.spaceAt other
  bytes_eq : ∀ identity, ∃ other,
    (later.contentsAt identity).bytes = (heap.contentsAt other).bytes

/-- A read-only object is refused, and nothing changes. -/
theorem writeable_of_readOnly
    (protect : (heap.contentsAt identity).readOnly = true) :
    writeable space object identity heap = .error (.telling .readOnlyObject object.number) heap := by
  unfold writeable
  simp only [get_bind, protect, if_true]
  rfl

/-- The heap after a space took a copy of contents in their place. -/
def detached (heap : Heap) (space : Nat) (object : MemoryObject) (identity : Nat) : Heap :=
  (heap.pushContents (heap.contentsAt identity).copy).bound space object heap.contents.size

/-- Contents that the space does not own are copied for it first. -/
theorem writeable_of_shared
    (writes : (heap.contentsAt identity).readOnly = false)
    (shared : (heap.contentsAt identity).owner ≠ (heap.spaceAt space).key) :
    writeable space object identity heap =
      .ok heap.contents.size (heap.detached space object identity) := by
  have free : ((heap.pushContents (heap.contentsAt identity).copy).contentsAt
      heap.contents.size).owner = 0 := by
    rw [contentsAt_pushContents_self]
    rfl
  have copies : copyContents identity heap =
      .ok heap.contents.size (heap.pushContents (heap.contentsAt identity).copy) := rfl
  unfold writeable
  simp only [get_bind, writes, Bool.false_eq_true, if_false, shared]
  rw [bind_of_ok copies, bind_of_ok (bind_run free)]
  rfl

/-- A copy shows what the contents showed of which it was made. -/
theorem Owned.opened_detached
    (owned : heap.Owned)
    (binds : heap.Binds space object identity) :
    heap.Opened space object heap.contents.size (heap.detached space object identity) := by
  have present : space < heap.spaces.size := binds.lt
  have added := heap.contentsAt_pushContents_self (heap.contentsAt identity).copy
  have inside : heap.contents.size <
      (heap.pushContents (heap.contentsAt identity).copy).contents.size := by
    rw [size_contents_pushContents]
    exact Nat.lt_succ_self _
  have spaceAt_detached := spaceAt_bound
    (heap.pushContents (heap.contentsAt identity).copy) space object heap.contents.size
  constructor
  · refine ⟨owned.bindFresh space object (heap.contentsAt identity), ?_, ?_⟩
    · unfold Binds detached
      rw [spaceAt_detached, if_pos ⟨rfl, present⟩]
      exact Assoc.mem_of_get? (Assoc.get?_put_self _ _ _)
    · exact (owner_bound_self inside).trans (key_bound _ _ _ _ _).symm
  · intro other
    unfold detached
    rw [listing_bound, added]
    split
    · rename_i here
      rw [here.1, owned.listing_pushContents]
      refine Assoc.put_of_get? ?_
      have shown := image?_eq heap space object
      rw [owned.find?_of_binds binds] at shown
      exact shown
    · exact owned.listing_pushContents _ other
  · rfl
  · exact size_spaces_bound _ _ _ _
  · intro other away
    unfold detached
    rw [spaceAt_detached, if_neg fun here => away here.1]
    rfl
  · intro other
    have shown : ((heap.detached space object identity).contentsAt other).copy =
        ((heap.pushContents (heap.contentsAt identity).copy).contentsAt other).copy :=
      copy_contentsAt_bound _ _ _ _ _
    by_cases new : other = heap.contents.size
    · rw [new, added] at shown
      exact ⟨identity, new ▸ Contents.bytes_eq_of_copy_eq shown⟩
    · rw [Heap.contentsAt_pushContents, if_neg new] at shown
      exact ⟨other, Contents.bytes_eq_of_copy_eq shown⟩

/-- Contents that may be written can be opened. -/
theorem Owned.writeable_run
    (owned : heap.Owned)
    (binds : heap.Binds space object identity)
    (writes : (heap.contentsAt identity).readOnly = false) :
    ∃ target later, writeable space object identity heap = .ok target later ∧
      heap.Opened space object target later := by
  by_cases owner : (heap.contentsAt identity).owner = (heap.spaceAt space).key
  · refine ⟨identity, heap, ?_, ?_⟩
    · unfold writeable
      simp only [get_bind, writes, Bool.false_eq_true, if_false, owner, if_true]
      rfl
    · exact {
        grants := ⟨owned, binds, owner⟩
        listing_eq := fun _ => rfl
        table_eq := rfl
        size_spaces_eq := rfl
        spaceAt_eq := fun _ _ => rfl
        bytes_eq := fun identity => ⟨identity, rfl⟩ }
  · exact ⟨_, _, writeable_of_shared writes owner, owned.opened_detached binds⟩

end

end Heap

end Diverge
