import Diverge.Memory.Heap
import Diverge.Proofs.Assoc
import Diverge.Proofs.Computation

/-!
# Who may write contents

Spaces share contents, and a space writes contents in place when their owner is its
key.  `Heap.Owned` says that this is safe: contents whose owner is the key of a
space that binds them are bound nowhere else.  Every operation on a heap keeps it,
as long as objects are bound only to contents that nobody owned before.

What a space shows is its *listing*: the bound objects, in order, with their
contents less the owner.  Each operation is described by what it does to the
listings.
-/

namespace Diverge

open Stateful

/-! ## Arrays with a default -/

section

variable {α : Type} (elements : Array α) (place other : Nat) (element fallback : α)

theorem getD_push :
    (elements.push element).getD place fallback =
      if place = elements.size then element else elements.getD place fallback := by
  simp only [Array.getD_eq_getD_getElem?, Array.getElem?_push]
  split
  · rfl
  · rfl

theorem getD_setIfInBounds :
    (elements.setIfInBounds place element).getD other fallback =
      if other = place ∧ place < elements.size then element
      else elements.getD other fallback := by
  simp only [Array.getD_eq_getD_getElem?, Array.getElem?_setIfInBounds]
  by_cases same : other = place
  · subst same
    by_cases inside : other < elements.size
    · simp [inside]
    · simp [inside]
  · have different : ¬ place = other := fun equal => same equal.symm
    simp [same, different]

theorem getD_of_size_le
    (outside : elements.size ≤ place) :
    elements.getD place fallback = fallback := by
  simp [Array.getD_eq_getD_getElem?, outside]

end

theorem Contents.bytes_eq_of_copy_eq
    {first second : Contents}
    (same : first.copy = second.copy) :
    first.bytes = second.bytes := by
  have bytes : first.copy.bytes = second.copy.bytes := by rw [same]
  exact bytes

namespace Heap

/-! ## The heap, one change at a time -/

/-- The heap with other contents under an identity. -/
def setContents (heap : Heap) (identity : Nat) (contents : Contents) : Heap :=
  { heap with contents := heap.contents.setIfInBounds identity contents }

/-- The heap with contents more. -/
def pushContents (heap : Heap) (contents : Contents) : Heap :=
  { heap with contents := heap.contents.push contents }

/-- The heap with another space under an identity. -/
def setSpace (heap : Heap) (identity : Nat) (space : Space) : Heap :=
  { heap with spaces := heap.spaces.setIfInBounds identity space }

section

variable (heap : Heap) (identity other : Nat) (contents : Contents) (space : Space)

/-- Changing contents changes what is there under their identity, and nothing else. -/
theorem contentsAt_setContents :
    (heap.setContents identity contents).contentsAt other =
      if other = identity ∧ identity < heap.contents.size then contents
      else heap.contentsAt other :=
  getD_setIfInBounds _ _ _ _ _

/-- New contents come under the next identity. -/
theorem contentsAt_pushContents :
    (heap.pushContents contents).contentsAt other =
      if other = heap.contents.size then contents else heap.contentsAt other :=
  getD_push _ _ _ _

theorem contentsAt_pushContents_self :
    (heap.pushContents contents).contentsAt heap.contents.size = contents := by
  rw [contentsAt_pushContents]
  exact if_pos rfl

/-- Changing a space changes no other one. -/
theorem spaceAt_setSpace :
    (heap.setSpace identity space).spaceAt other =
      if other = identity ∧ identity < heap.spaces.size then space
      else heap.spaceAt other :=
  getD_setIfInBounds _ _ _ _ _

@[simp]
theorem spaceAt_setContents :
    (heap.setContents identity contents).spaceAt other = heap.spaceAt other := rfl

@[simp]
theorem spaceAt_pushContents :
    (heap.pushContents contents).spaceAt other = heap.spaceAt other := rfl

@[simp]
theorem contentsAt_setSpace :
    (heap.setSpace identity space).contentsAt other = heap.contentsAt other := rfl

@[simp]
theorem size_contents_setContents :
    (heap.setContents identity contents).contents.size = heap.contents.size :=
  Array.size_setIfInBounds

@[simp]
theorem size_contents_pushContents :
    (heap.pushContents contents).contents.size = heap.contents.size + 1 :=
  Array.size_push ..

@[simp]
theorem size_spaces_setSpace :
    (heap.setSpace identity space).spaces.size = heap.spaces.size :=
  Array.size_setIfInBounds

end

/-! ## Ownership -/

/-- A space binds an object to contents. -/
def Binds (heap : Heap) (space : Nat) (object : MemoryObject) (contents : Nat) : Prop :=
  (object, contents) ∈ (heap.spaceAt space).bindings

/-- Contents that a space owns are bound by it alone, and under one object. -/
structure Owned (heap : Heap) : Prop where
  key_pos : ∀ space < heap.spaces.size, 0 < (heap.spaceAt space).key
  key_lt : ∀ space, (heap.spaceAt space).key < heap.nextKey
  owner_lt : ∀ contents, (heap.contentsAt contents).owner < heap.nextKey
  once : ∀ space, (heap.spaceAt space).bindings.HasOnce
  bound_lt : ∀ {space object contents}, heap.Binds space object contents →
    contents < heap.contents.size
  /-- What nobody owns is not bound. -/
  owner_pos : ∀ {space object contents}, heap.Binds space object contents →
    0 < (heap.contentsAt contents).owner
  alone : ∀ {space object contents other another},
    heap.Binds space object contents →
    (heap.contentsAt contents).owner = (heap.spaceAt space).key →
    heap.Binds other another contents →
    other = space ∧ another = object

/-- What a space shows: the bound objects with their contents, less the owner. -/
def listing (heap : Heap) (space : Nat) : Assoc MemoryObject Contents :=
  (heap.spaceAt space).bindings.mapValues fun contents => (heap.contentsAt contents).copy

/-- What a space shows of an object. -/
def image? (heap : Heap) (space : Nat) (object : MemoryObject) : Option Contents :=
  (heap.listing space).get? object

theorem Binds.lt
    {heap : Heap}
    {space : Nat}
    {object : MemoryObject}
    {contents : Nat}
    (binds : heap.Binds space object contents) :
    space < heap.spaces.size := by
  rcases Nat.lt_or_ge space heap.spaces.size with inside | outside
  · exact inside
  · have empty : heap.spaceAt space = default := getD_of_size_le _ _ _ outside
    unfold Binds at binds
    rw [empty] at binds
    exact nomatch binds

theorem binds_of_find?
    {heap : Heap}
    {space : Nat}
    {object : MemoryObject}
    {contents : Nat}
    (found : heap.find? space object = some contents) :
    heap.Binds space object contents :=
  Assoc.mem_of_get? found

/-- A space binds an object once, so the binding is found. -/
theorem Owned.find?_of_binds
    {heap : Heap}
    (owned : heap.Owned)
    {space : Nat}
    {object : MemoryObject}
    {contents : Nat}
    (binds : heap.Binds space object contents) :
    heap.find? space object = some contents :=
  (owned.once space).get?_of_mem binds

/-- What a space shows of an object are the contents that it binds, whoever owns them. -/
theorem image?_eq
    (heap : Heap)
    (space : Nat)
    (object : MemoryObject) :
    heap.image? space object =
      (heap.find? space object).map fun contents => (heap.contentsAt contents).copy :=
  Assoc.get?_mapValues _ _ _

theorem owned_empty : Owned {} where
  key_pos := by simp
  key_lt := by simp [spaceAt, default, instInhabitedSpace.default]
  owner_lt := by simp [contentsAt, default, instInhabitedContents.default]
  once := by simp [spaceAt, default, instInhabitedSpace.default, Assoc.HasOnce]
  bound_lt := fun binds => absurd binds.lt (by simp)
  owner_pos := fun binds => absurd binds.lt (by simp)
  alone := fun binds => absurd binds.lt (by simp)

/-! ## What is built does not change who owns what -/

theorem Owned.withTable
    {heap : Heap}
    (owned : heap.Owned)
    (table : Table) :
    Owned { heap with table } where
  key_pos := owned.key_pos
  key_lt := owned.key_lt
  owner_lt := owned.owner_lt
  once := owned.once
  bound_lt := owned.bound_lt
  owner_pos := owned.owner_pos
  alone := owned.alone

/-! ## New contents -/

theorem Owned.contentsAt_pushContents
    {heap : Heap}
    (owned : heap.Owned)
    {space : Nat}
    {object : MemoryObject}
    {identity : Nat}
    (binds : heap.Binds space object identity)
    (contents : Contents) :
    (heap.pushContents contents).contentsAt identity = heap.contentsAt identity := by
  rw [Heap.contentsAt_pushContents]
  exact if_neg (Nat.ne_of_lt (owned.bound_lt binds))

/-- Contents that nobody owns may be taken up. -/
theorem Owned.pushContents
    {heap : Heap}
    (owned : heap.Owned)
    {contents : Contents}
    (free : contents.owner = 0) :
    (heap.pushContents contents).Owned where
  key_pos := owned.key_pos
  key_lt := owned.key_lt
  owner_lt := by
    intro identity
    rw [Heap.contentsAt_pushContents]
    split
    · rw [free]
      exact Nat.lt_of_le_of_lt (Nat.zero_le _) (owned.owner_lt 0)
    · exact owned.owner_lt identity
  once := owned.once
  bound_lt := by
    intro space object identity binds
    rw [size_contents_pushContents]
    exact Nat.lt_succ_of_lt (owned.bound_lt binds)
  owner_pos := by
    intro space object identity binds
    rw [owned.contentsAt_pushContents binds]
    exact owned.owner_pos binds
  alone := by
    intro space object identity other another binds owner bindsToo
    rw [owned.contentsAt_pushContents binds] at owner
    exact owned.alone binds owner bindsToo

/-- New contents are bound nowhere, so no space shows them. -/
theorem Owned.listing_pushContents
    {heap : Heap}
    (owned : heap.Owned)
    (contents : Contents)
    (space : Nat) :
    (heap.pushContents contents).listing space = heap.listing space := by
  refine List.map_congr_left fun entry member => ?_
  have same := owned.contentsAt_pushContents
    (show heap.Binds space entry.1 entry.2 from member) contents
  simp only [same]

/-! ## Binding -/

/-- The heap after an object was bound. -/
def bound (heap : Heap) (space : Nat) (object : MemoryObject) (identity : Nat) : Heap :=
  (heap.setContents identity
    { heap.contentsAt identity with owner := (heap.spaceAt space).key }).setSpace space
      { heap.spaceAt space with
        bindings := (heap.spaceAt space).bindings.put object identity }

/-- Contents that nobody owns are bound. -/
theorem bind_run
    {heap : Heap}
    {space : Nat}
    {object : MemoryObject}
    {identity : Nat}
    (free : (heap.contentsAt identity).owner = 0) :
    bind space object identity heap = .ok () (heap.bound space object identity) := by
  have accepted : ¬ ((heap.contentsAt identity).owner ≠ 0 ∧
      (heap.contentsAt identity).owner ≠ (heap.spaceAt space).key) :=
    fun refused => refused.1 free
  unfold bind
  simp only [get_bind, accepted, if_false]
  rfl

/-- Who owns contents does not show. -/
theorem copy_contentsAt_bound
    (heap : Heap)
    (space : Nat)
    (object : MemoryObject)
    (identity other : Nat) :
    ((heap.bound space object identity).contentsAt other).copy =
      (heap.contentsAt other).copy := by
  unfold bound
  rw [contentsAt_setSpace, contentsAt_setContents]
  split
  · rename_i here
    rw [here.1]
    rfl
  · rfl

theorem spaceAt_bound
    (heap : Heap)
    (space : Nat)
    (object : MemoryObject)
    (identity other : Nat) :
    (heap.bound space object identity).spaceAt other =
      if other = space ∧ space < heap.spaces.size then
        { heap.spaceAt space with
          bindings := (heap.spaceAt space).bindings.put object identity }
      else heap.spaceAt other := by
  unfold bound
  rw [spaceAt_setSpace]
  rfl

/--
After binding the space shows the contents under the object, and all other spaces what they
showed.
-/
theorem listing_bound
    (heap : Heap)
    (space : Nat)
    (object : MemoryObject)
    (identity other : Nat) :
    (heap.bound space object identity).listing other =
      if other = space ∧ space < heap.spaces.size then
        (heap.listing space).put object (heap.contentsAt identity).copy
      else heap.listing other := by
  unfold listing
  simp only [copy_contentsAt_bound, spaceAt_bound]
  split
  · exact Assoc.put_mapValues _ _ _ _
  · rfl

/-- A binding that is there after binding is the new one or was there before. -/
theorem Binds.of_bound
    {heap : Heap}
    {space : Nat}
    {object : MemoryObject}
    {identity : Nat}
    {other : Nat}
    {another : MemoryObject}
    {contents : Nat}
    (binds : (heap.bound space object identity).Binds other another contents) :
    (other = space ∧ another = object ∧ contents = identity) ∨
      heap.Binds other another contents := by
  unfold Binds at binds
  rw [spaceAt_bound] at binds
  split at binds
  · rename_i here
    rcases Assoc.mem_put binds with ⟨rfl, rfl⟩ | before
    · exact Or.inl ⟨here.1, rfl, rfl⟩
    · refine Or.inr ?_
      rw [here.1]
      exact before
  · exact Or.inr binds

theorem contentsAt_bound_of_ne
    {heap : Heap}
    {space : Nat}
    {object : MemoryObject}
    {identity other : Nat}
    (different : other ≠ identity) :
    (heap.bound space object identity).contentsAt other = heap.contentsAt other := by
  unfold bound
  rw [contentsAt_setSpace, contentsAt_setContents]
  exact if_neg fun here => different here.1

/-- Contents belong to the space that bound them. -/
theorem owner_bound_self
    {heap : Heap}
    {space : Nat}
    {object : MemoryObject}
    {identity : Nat}
    (inside : identity < heap.contents.size) :
    ((heap.bound space object identity).contentsAt identity).owner =
      (heap.spaceAt space).key := by
  unfold bound
  rw [contentsAt_setSpace, contentsAt_setContents, if_pos ⟨rfl, inside⟩]

theorem key_bound
    (heap : Heap)
    (space : Nat)
    (object : MemoryObject)
    (identity other : Nat) :
    ((heap.bound space object identity).spaceAt other).key = (heap.spaceAt other).key := by
  rw [spaceAt_bound]
  split
  · rename_i here
    rw [here.1]
  · rfl

@[simp]
theorem size_spaces_bound
    (heap : Heap)
    (space : Nat)
    (object : MemoryObject)
    (identity : Nat) :
    (heap.bound space object identity).spaces.size = heap.spaces.size :=
  size_spaces_setSpace _ _ _

@[simp]
theorem size_contents_bound
    (heap : Heap)
    (space : Nat)
    (object : MemoryObject)
    (identity : Nat) :
    (heap.bound space object identity).contents.size = heap.contents.size :=
  size_contents_setContents _ _ _

/-- An object may be bound to contents that nobody owns. -/
theorem Owned.bound
    {heap : Heap}
    (owned : heap.Owned)
    {space : Nat}
    {object : MemoryObject}
    {identity : Nat}
    (inside : identity < heap.contents.size)
    (free : (heap.contentsAt identity).owner = 0) :
    (heap.bound space object identity).Owned := by
  -- The contents were bound nowhere, since they had no owner.
  have unbound {other : Nat} {another : MemoryObject} {contents : Nat}
      (binds : heap.Binds other another contents) : contents ≠ identity := by
    rintro rfl
    exact absurd (owned.owner_pos binds) (by rw [free]; exact Nat.lt_irrefl 0)
  constructor
  · intro other below
    rw [key_bound]
    exact owned.key_pos other (by simpa using below)
  · intro other
    rw [key_bound]
    exact owned.key_lt other
  · intro other
    by_cases same : other = identity
    · rw [same, owner_bound_self inside]
      exact owned.key_lt space
    · rw [contentsAt_bound_of_ne same]
      exact owned.owner_lt other
  · intro other
    rw [spaceAt_bound]
    split
    · exact (owned.once space).put object identity
    · exact owned.once other
  · intro other another contents binds
    rw [size_contents_bound]
    rcases binds.of_bound with ⟨rfl, rfl, rfl⟩ | before
    · exact inside
    · exact owned.bound_lt before
  · intro other another contents binds
    have present : other < heap.spaces.size := by simpa using binds.lt
    rcases binds.of_bound with ⟨rfl, rfl, rfl⟩ | before
    · rw [owner_bound_self inside]
      exact owned.key_pos other present
    · rw [contentsAt_bound_of_ne (unbound before)]
      exact owned.owner_pos before
  · intro first firstObject contents second secondObject binds owner bindsToo
    rw [key_bound] at owner
    rcases binds.of_bound with ⟨rfl, rfl, rfl⟩ | before
    · rcases bindsToo.of_bound with ⟨rfl, rfl, _⟩ | beforeToo
      · exact ⟨rfl, rfl⟩
      · exact (unbound beforeToo rfl).elim
    · rw [contentsAt_bound_of_ne (unbound before)] at owner
      rcases bindsToo.of_bound with ⟨_, _, same⟩ | beforeToo
      · exact (unbound before same).elim
      · exact owned.alone before owner beforeToo

/-! ## Unbinding -/

/-- The heap after an object was unbound. -/
def unbound (heap : Heap) (space : Nat) (object : MemoryObject) : Heap :=
  heap.setSpace space
    { heap.spaceAt space with bindings := (heap.spaceAt space).bindings.erase object }

theorem unbind_run
    (heap : Heap)
    (space : Nat)
    (object : MemoryObject) :
    unbind space object heap = .ok () (heap.unbound space object) := rfl

theorem spaceAt_unbound
    (heap : Heap)
    (space : Nat)
    (object : MemoryObject)
    (other : Nat) :
    (heap.unbound space object).spaceAt other =
      if other = space ∧ space < heap.spaces.size then
        { heap.spaceAt space with
          bindings := (heap.spaceAt space).bindings.erase object }
      else heap.spaceAt other :=
  spaceAt_setSpace _ _ _ _

/-- Unbinding takes the object from the space, and nothing from any other. -/
theorem listing_unbound
    (heap : Heap)
    (space : Nat)
    (object : MemoryObject)
    (other : Nat) :
    (heap.unbound space object).listing other =
      if other = space ∧ space < heap.spaces.size then
        (heap.listing space).erase object
      else heap.listing other := by
  have same (contents : Nat) :
      (heap.unbound space object).contentsAt contents = heap.contentsAt contents := rfl
  unfold listing
  simp only [same, spaceAt_unbound]
  split
  · exact Assoc.erase_mapValues _ _ _
  · rfl

/-- Unbinding keeps memory well owned. -/
theorem Owned.unbound
    {heap : Heap}
    (owned : heap.Owned)
    (space : Nat)
    (object : MemoryObject) :
    (heap.unbound space object).Owned := by
  have key (other : Nat) :
      ((heap.unbound space object).spaceAt other).key = (heap.spaceAt other).key := by
    rw [spaceAt_unbound]
    split
    · rename_i here
      rw [here.1]
    · rfl
  have before {other : Nat} {another : MemoryObject} {contents : Nat}
      (binds : (heap.unbound space object).Binds other another contents) :
      heap.Binds other another contents := by
    unfold Binds at binds
    rw [spaceAt_unbound] at binds
    split at binds
    · rename_i here
      rw [here.1]
      exact Assoc.mem_of_mem_erase binds
    · exact binds
  constructor
  · intro other below
    rw [key]
    exact owned.key_pos other (by simpa [Heap.unbound] using below)
  · intro other
    rw [key]
    exact owned.key_lt other
  · exact owned.owner_lt
  · intro other
    rw [spaceAt_unbound]
    split
    · exact (owned.once space).erase object
    · exact owned.once other
  · intro other another contents binds
    exact owned.bound_lt (before binds)
  · intro other another contents binds
    exact owned.owner_pos (before binds)
  · intro first firstObject contents second secondObject binds owner bindsToo
    rw [key] at owner
    exact owned.alone (before binds) owner (before bindsToo)

/-! ## New spaces -/

/-- The heap with a space more, under a key that no space has had. -/
def pushSpace (heap : Heap) (bindings : Assoc MemoryObject Nat) : Heap :=
  { heap with
    spaces := heap.spaces.push { key := heap.nextKey, bindings }
    nextKey := heap.nextKey + 1 }

theorem newSpace_run
    (heap : Heap) :
    newSpace heap = .ok heap.spaces.size (heap.pushSpace []) := rfl

theorem spaceAt_pushSpace
    (heap : Heap)
    (bindings : Assoc MemoryObject Nat)
    (other : Nat) :
    (heap.pushSpace bindings).spaceAt other =
      if other = heap.spaces.size then { key := heap.nextKey, bindings }
      else heap.spaceAt other :=
  getD_push _ _ _ _

@[simp]
theorem size_spaces_pushSpace
    (heap : Heap)
    (bindings : Assoc MemoryObject Nat) :
    (heap.pushSpace bindings).spaces.size = heap.spaces.size + 1 :=
  Array.size_push ..

theorem bindings_of_size_le
    {heap : Heap}
    {space : Nat}
    (outside : heap.spaces.size ≤ space) :
    (heap.spaceAt space).bindings = [] := by
  have empty : heap.spaceAt space = default := getD_of_size_le _ _ _ outside
  rw [empty]
  rfl

/-- A new space shows nothing and changes nothing that others show. -/
theorem listing_newSpace
    (heap : Heap)
    (other : Nat) :
    (heap.pushSpace []).listing other = heap.listing other := by
  have same (contents : Nat) :
      (heap.pushSpace []).contentsAt contents = heap.contentsAt contents := rfl
  unfold listing
  simp only [same, spaceAt_pushSpace]
  split
  · rename_i here
    rw [here, bindings_of_size_le (Nat.le_refl _)]
  · rfl

/-- A new space keeps memory well owned, since its key is new. -/
theorem Owned.newSpace
    {heap : Heap}
    (owned : heap.Owned) :
    (heap.pushSpace []).Owned := by
  have before {space : Nat} {object : MemoryObject} {contents : Nat}
      (binds : (heap.pushSpace []).Binds space object contents) :
      space ≠ heap.spaces.size ∧ heap.Binds space object contents := by
    unfold Binds at binds
    rw [spaceAt_pushSpace] at binds
    split at binds
    · exact nomatch binds
    · exact ⟨‹_›, binds⟩
  constructor
  · intro space below
    rw [size_spaces_pushSpace] at below
    rw [spaceAt_pushSpace]
    split
    · exact Nat.lt_of_le_of_lt (Nat.zero_le _) (owned.owner_lt 0)
    · exact owned.key_pos space (Nat.lt_of_le_of_ne (Nat.le_of_lt_succ below) ‹_›)
  · intro space
    rw [spaceAt_pushSpace]
    split
    · exact Nat.lt_succ_self _
    · exact Nat.lt_succ_of_lt (owned.key_lt space)
  · intro contents
    exact Nat.lt_succ_of_lt (owned.owner_lt contents)
  · intro space
    rw [spaceAt_pushSpace]
    split
    · exact List.nodup_nil
    · exact owned.once space
  · intro space object contents binds
    exact owned.bound_lt (before binds).2
  · intro space object contents binds
    exact owned.owner_pos (before binds).2
  · intro space object contents other another binds owner bindsToo
    rw [spaceAt_pushSpace, if_neg (before binds).1] at owner
    exact owned.alone (before binds).2 owner (before bindsToo).2

/-- The heap after a space was copied: the copy and the space have new keys. -/
def copied (heap : Heap) (identity : Nat) : Heap :=
  let cloned := heap.pushSpace (heap.spaceAt identity).bindings
  { cloned.setSpace identity
      { cloned.spaceAt identity with key := cloned.nextKey } with
    nextKey := cloned.nextKey + 1 }

theorem copySpace_run
    (heap : Heap)
    (identity : Nat) :
    copySpace identity heap = .ok heap.spaces.size (heap.copied identity) := rfl

theorem spaceAt_copied
    (heap : Heap)
    (identity other : Nat) :
    (heap.copied identity).spaceAt other =
      if other = identity ∧ identity < heap.spaces.size + 1 then
        { (heap.pushSpace (heap.spaceAt identity).bindings).spaceAt identity with
          key := heap.nextKey + 1 }
      else (heap.pushSpace (heap.spaceAt identity).bindings).spaceAt other := by
  have bounds := size_spaces_pushSpace heap (heap.spaceAt identity).bindings
  rw [← bounds]
  exact spaceAt_setSpace _ _ _ _

/-- The copy of a space binds what the space binds. -/
theorem bindings_copied
    (heap : Heap)
    (identity other : Nat) :
    ((heap.copied identity).spaceAt other).bindings =
      if other = heap.spaces.size then (heap.spaceAt identity).bindings
      else (heap.spaceAt other).bindings := by
  have pushed : ((heap.pushSpace (heap.spaceAt identity).bindings).spaceAt other).bindings =
      if other = heap.spaces.size then (heap.spaceAt identity).bindings
      else (heap.spaceAt other).bindings := by
    rw [spaceAt_pushSpace]
    split
    · rfl
    · rfl
  rw [spaceAt_copied]
  split
  · rename_i here
    rw [← here.1] at pushed ⊢
    exact pushed
  · exact pushed

/-- A space whose key is an old one is neither the copy nor what was copied. -/
theorem key_copied
    {heap : Heap}
    {identity other : Nat}
    (old : ((heap.copied identity).spaceAt other).key < heap.nextKey) :
    other ≠ heap.spaces.size ∧
      ((heap.copied identity).spaceAt other).key = (heap.spaceAt other).key ∧
        (other = identity → heap.spaces.size < identity) := by
  rw [spaceAt_copied] at old ⊢
  split at old
  · exact absurd old (Nat.not_lt.2 (Nat.le_succ _))
  · rename_i away
    rw [if_neg away]
    rw [spaceAt_pushSpace] at old ⊢
    split at old
    · exact absurd old (Nat.lt_irrefl _)
    · rename_i another
      rw [if_neg another]
      refine ⟨another, rfl, ?_⟩
      intro same
      exact Nat.lt_of_not_le fun inside =>
        away ⟨same, Nat.lt_succ_of_le inside⟩

@[simp]
theorem size_spaces_copied
    (heap : Heap)
    (identity : Nat) :
    (heap.copied identity).spaces.size = heap.spaces.size + 1 := by
  simp [copied]

/-- The copy of a space shows what the space shows, and all other spaces show what they did. -/
theorem listing_copied
    (heap : Heap)
    (identity other : Nat) :
    (heap.copied identity).listing other =
      if other = heap.spaces.size then heap.listing identity else heap.listing other := by
  have same (contents : Nat) :
      (heap.copied identity).contentsAt contents = heap.contentsAt contents := rfl
  unfold listing
  simp only [same, bindings_copied]
  split
  · rfl
  · rfl

/--
A binding that is there after copying was there before, in the space that was copied or in its
own.
-/
theorem Binds.of_copied
    {heap : Heap}
    {identity space : Nat}
    {object : MemoryObject}
    {contents : Nat}
    (binds : (heap.copied identity).Binds space object contents) :
    (space = heap.spaces.size ∧ heap.Binds identity object contents) ∨
      (space ≠ heap.spaces.size ∧ heap.Binds space object contents) := by
  unfold Binds at binds
  rw [bindings_copied] at binds
  split at binds
  · exact Or.inl ⟨‹_›, binds⟩
  · exact Or.inr ⟨‹_›, binds⟩

/-- Copying keeps memory well owned, since both spaces get new keys. -/
theorem Owned.copied
    {heap : Heap}
    (owned : heap.Owned)
    (identity : Nat) :
    (heap.copied identity).Owned := by
  have nextKey_pos : 0 < heap.nextKey :=
    Nat.lt_of_le_of_lt (Nat.zero_le _) (owned.owner_lt 0)
  -- Wherever contents are bound now, some space bound them before.
  have before {space : Nat} {object : MemoryObject} {contents : Nat}
      (binds : (heap.copied identity).Binds space object contents) :
      ∃ older, heap.Binds older object contents := by
    rcases binds.of_copied with ⟨_, older⟩ | ⟨_, older⟩
    · exact ⟨identity, older⟩
    · exact ⟨space, older⟩
  constructor
  · intro space below
    rw [size_spaces_copied] at below
    rw [spaceAt_copied]
    split
    · exact Nat.succ_pos _
    · rw [spaceAt_pushSpace]
      split
      · exact nextKey_pos
      · exact owned.key_pos space
          (Nat.lt_of_le_of_ne (Nat.le_of_lt_succ below) ‹_›)
  · intro space
    rw [spaceAt_copied]
    split
    · exact Nat.lt_succ_self _
    · rw [spaceAt_pushSpace]
      split
      · exact Nat.lt_succ_of_lt (Nat.lt_succ_self _)
      · exact Nat.lt_succ_of_lt (Nat.lt_succ_of_lt (owned.key_lt space))
  · intro contents
    exact Nat.lt_succ_of_lt (Nat.lt_succ_of_lt (owned.owner_lt contents))
  · intro space
    rw [bindings_copied]
    split
    · exact owned.once identity
    · exact owned.once space
  · intro space object contents binds
    obtain ⟨older, was⟩ := before binds
    exact owned.bound_lt was
  · intro space object contents binds
    obtain ⟨older, was⟩ := before binds
    exact owned.owner_pos was
  · intro space object contents other another binds owner bindsToo
    -- The owner is an old key, so that it is that of a space apart from the two.
    have old : ((heap.copied identity).spaceAt space).key < heap.nextKey := by
      rw [← owner]
      exact owned.owner_lt contents
    obtain ⟨notCopy, sameKey, apart⟩ := key_copied old
    have was : heap.Binds space object contents := by
      rcases binds.of_copied with ⟨isCopy, _⟩ | ⟨_, was⟩
      · exact (notCopy isCopy).elim
      · exact was
    have owns : (heap.contentsAt contents).owner = (heap.spaceAt space).key :=
      owner.trans sameKey
    rcases bindsToo.of_copied with ⟨_, wasToo⟩ | ⟨_, wasToo⟩
    · obtain ⟨same, _⟩ := owned.alone was owns wasToo
      exact absurd (apart same.symm) (Nat.not_lt.2 (Nat.le_of_lt wasToo.lt))
    · exact owned.alone was owns wasToo

end Heap

end Diverge
