import Diverge.Proofs.Memory.Opening

/-!
# Keys of ownership are exclusive

Spaces and contents may be dealt with in any order: contents may be bound under several
objects, unbound and bound again, or handed from one space to another, and a call that is
refused leaves what it found.  Whatever was done, no two spaces have one key, what nobody
owns is bound nowhere, and what a space owns no other space binds (`Heap.Exclusive`).

A space gives its key up when it is copied, but contents keep the owner they had.  So the
invariant has to say as well that all keys and owners were handed out before
(`Heap.Keyed`): then a new key is the owner of nothing.
-/

namespace Diverge

open Stateful

namespace Heap

/-! ## Exclusive keys -/

/-- A key stands for one space, which alone binds what the key owns. -/
structure Exclusive (heap : Heap) : Prop where
  /-- No two spaces have one key. -/
  key_inj : ∀ first < heap.spaces.size, ∀ second < heap.spaces.size,
    (heap.spaceAt first).key = (heap.spaceAt second).key → first = second
  /-- What nobody owns is bound nowhere. -/
  unbound : ∀ contents, (heap.contentsAt contents).owner = 0 →
    ∀ space object, ¬ heap.Binds space object contents
  /-- What a space owns no other space binds. -/
  sole : ∀ space < heap.spaces.size, ∀ contents,
    (heap.contentsAt contents).owner = (heap.spaceAt space).key →
      ∀ other object, heap.Binds other object contents → other = space

/-- Keys are exclusive, and all keys and owners were handed out before. -/
structure Keyed (heap : Heap) : Prop extends heap.Exclusive where
  key_pos : ∀ space < heap.spaces.size, 0 < (heap.spaceAt space).key
  key_lt : ∀ space, (heap.spaceAt space).key < heap.nextKey
  owner_lt : ∀ contents, (heap.contentsAt contents).owner < heap.nextKey
  bound_lt : ∀ {space object contents}, heap.Binds space object contents →
    contents < heap.contents.size

theorem keyed_empty : Keyed {} where
  key_inj := fun _ below => absurd below (Nat.not_lt_zero _)
  unbound := fun _ _ _ _ binds => Nat.not_lt_zero _ binds.lt
  sole := fun _ below => absurd below (Nat.not_lt_zero _)
  key_pos := fun _ below => absurd below (Nat.not_lt_zero _)
  key_lt := by simp [spaceAt, default, instInhabitedSpace.default]
  owner_lt := by simp [contentsAt, default, instInhabitedContents.default]
  bound_lt := fun binds => absurd binds.lt (Nat.not_lt_zero _)

section

variable {heap : Heap} {space identity : Nat} {object : MemoryObject}

/-! ## Changes that leave all owners -/

/-- What matters for ownership: the spaces, the next key and who owns what. -/
def titles (heap : Heap) : Array Space × Nat × Array Nat :=
  (heap.spaces, heap.nextKey, heap.contents.map Contents.owner)

theorem owner_eq_of_titles_eq
    {later : Heap}
    (same : later.titles = heap.titles)
    (contents : Nat) :
    (later.contentsAt contents).owner = (heap.contentsAt contents).owner := by
  have owners : later.contents.map Contents.owner = heap.contents.map Contents.owner :=
    congrArg (·.2.2) same
  have here := congrArg (fun owners => owners.getD contents 0) owners
  simp only [Array.getD_eq_getD_getElem?, Array.getElem?_map] at here
  unfold contentsAt
  rw [Array.getD_eq_getD_getElem?, Array.getD_eq_getD_getElem?]
  cases found : later.contents[contents]? <;> cases before : heap.contents[contents]? <;>
    rw [found, before] at here <;> exact here

/-- Ownership is a matter of the titles alone. -/
theorem Keyed.of_titles_eq
    {later : Heap}
    (keyed : heap.Keyed)
    (same : later.titles = heap.titles) :
    later.Keyed := by
  have spaces : later.spaces = heap.spaces := congrArg (·.1) same
  have nextKey : later.nextKey = heap.nextKey := congrArg (·.2.1) same
  have owner := owner_eq_of_titles_eq same
  have spaceAt (other : Nat) : later.spaceAt other = heap.spaceAt other := by
    unfold Heap.spaceAt
    rw [spaces]
  have size : later.contents.size = heap.contents.size := by
    simpa [titles] using congrArg (fun titles => titles.2.2.size) same
  have before {other : Nat} {another : MemoryObject} {contents : Nat}
      (binds : later.Binds other another contents) : heap.Binds other another contents := by
    unfold Binds at binds
    rwa [spaceAt] at binds
  constructor
  · constructor
    · simpa only [spaces, spaceAt] using keyed.key_inj
    · intro contents free other another binds
      exact keyed.unbound contents ((owner contents).symm.trans free) other another
        (before binds)
    · intro other below contents owns another object binds
      rw [spaces] at below
      rw [owner, spaceAt] at owns
      exact keyed.sole other below contents owns another object (before binds)
  · simpa only [spaces, spaceAt] using keyed.key_pos
  · simpa only [nextKey, spaceAt] using keyed.key_lt
  · simpa only [nextKey, owner] using keyed.owner_lt
  · intro other another contents binds
    rw [size]
    exact keyed.bound_lt (before binds)

theorem titles_setContents
    {contents : Contents}
    (same : contents.owner = (heap.contentsAt identity).owner) :
    (heap.setContents identity contents).titles = heap.titles := by
  refine Prod.ext rfl (Prod.ext rfl (Array.ext_getElem? fun other => ?_))
  simp only [titles, setContents, Array.getElem?_map, Array.getElem?_setIfInBounds]
  split
  next here =>
      subst here
      split
      next inside =>
          have found : heap.contents[identity]? = some (heap.contentsAt identity) := by
            simp [contentsAt, Array.getD_eq_getD_getElem?, inside]
          rw [found, Option.map_some, Option.map_some, same]
      next outside => simp [outside]
  next => rfl

theorem titles_build
    {α : Type}
    (action : Build α) :
    Stays titles (build action) heap := by
  unfold Stays final build
  cases action heap.table with
  | ok result table => rfl
  | error fault table => rfl

/-- What changes bytes only leaves the owners alone. -/
theorem titles_onContents
    {α : Type}
    {action : EStateM Fault Contents α}
    (same : ∀ contents, Stays Contents.owner action contents) :
    Stays titles (onContents identity action) heap := by
  have owner := same (heap.contentsAt identity)
  unfold Stays final at owner ⊢
  unfold onContents
  cases ran : action (heap.contentsAt identity) with
  | ok result changed =>
      rw [ran] at owner
      exact titles_setContents owner
  | error fault changed =>
      rw [ran] at owner
      exact titles_setContents owner

theorem titles_writeByte
    (offset : Int)
    (byte : Build Expr) :
    Stays titles (writeByte identity offset byte) heap := by
  refine (titles_build byte).bind fun value middle _ _ => titles_onContents fun contents => ?_
  unfold Contents.writeByte
  split
  · exact Stays.throw _
  · refine Stays.get_bind ?_
    exact (Stays.ofExcept _).bind fun _ _ _ _ => Stays.modify rfl

theorem titles_writeBytes
    (offset : Int)
    (value : Expr)
    (place count : Nat) :
    Stays titles (writeBytes identity offset value place count) heap := by
  induction count generalizing heap place with
  | zero => exact Stays.pure ()
  | succ count inductionHypothesis =>
      exact (titles_writeByte _ _).bind fun _ _ _ _ => inductionHypothesis _

/-- Writing a value leaves the owners alone. -/
theorem titles_write
    (offset : Int)
    (value : Expr) :
    Stays titles (write identity offset value) heap := by
  unfold write
  split
  · exact titles_writeByte _ _
  · exact titles_writeBytes _ _ _ _

/-! ## New contents -/

theorem Keyed.nextKey_pos
    (keyed : heap.Keyed) :
    0 < heap.nextKey :=
  Nat.lt_of_le_of_lt (Nat.zero_le _) (keyed.owner_lt 0)

theorem Keyed.contentsAt_pushContents
    (keyed : heap.Keyed)
    (contents : Contents)
    (binds : heap.Binds space object identity) :
    (heap.pushContents contents).contentsAt identity = heap.contentsAt identity := by
  rw [Heap.contentsAt_pushContents]
  exact if_neg (Nat.ne_of_lt (keyed.bound_lt binds))

/-- Contents that nobody owns may be added. -/
theorem Keyed.pushContents
    (keyed : heap.Keyed)
    {contents : Contents}
    (free : contents.owner = 0) :
    (heap.pushContents contents).Keyed where
  key_inj := keyed.key_inj
  unbound := by
    intro identity isFree space object binds
    rw [keyed.contentsAt_pushContents contents binds] at isFree
    exact keyed.unbound identity isFree space object binds
  sole := by
    intro space below identity owns other object binds
    rw [keyed.contentsAt_pushContents contents binds] at owns
    exact keyed.sole space below identity owns other object binds
  key_pos := keyed.key_pos
  key_lt := keyed.key_lt
  owner_lt := by
    intro identity
    rw [Heap.contentsAt_pushContents]
    split
    · rw [free]
      exact keyed.nextKey_pos
    · exact keyed.owner_lt identity
  bound_lt := by
    intro space object identity binds
    rw [size_contents_pushContents]
    exact Nat.lt_succ_of_lt (keyed.bound_lt binds)

/-- New contents belong to nobody. -/
theorem yields_initial
    (object : MemoryObject)
    (given : Option (List UInt8))
    (table : Table) :
    Yields (Contents.initial object given) table fun contents _ => contents.owner = 0 := by
  unfold Contents.initial
  have filled (values : List Int) (table : Table) :
      Yields (Contents.constants values >>= fun bytes =>
        pure { object := object, readOnly := false, owner := 0, bytes := bytes }) table
          fun (contents : Contents) _ => contents.owner = 0 :=
    Yields.bind fun _ _ _ => Yields.pure rfl
  cases given with
  | some values => exact filled _ table
  | none => exact Yields.bind fun _ _ _ => filled _ _

theorem Keyed.newContents
    (keyed : heap.Keyed)
    (given : Option (List UInt8)) :
    (final (newContents object given) heap).Keyed := by
  unfold final Heap.newContents
  have built := yields_initial object given heap.table
  cases ran : Contents.initial object given heap.table with
  | error fault table =>
      rw [bind_of_error (show build _ heap = .error fault { heap with table } by
        unfold build; rw [ran])]
      exact keyed.of_titles_eq rfl
  | ok contents table =>
      rw [bind_of_ok (show build _ heap = .ok contents { heap with table } by
        unfold build; rw [ran])]
      have grown : Keyed { heap with table } := keyed.of_titles_eq rfl
      exact grown.pushContents (built ran)

/-! ## Binding -/

/-- Contents are bound unless another key owns them. -/
theorem bind_of_accepted
    (accepted : (heap.contentsAt identity).owner = 0 ∨
      (heap.contentsAt identity).owner = (heap.spaceAt space).key) :
    bind space object identity heap = .ok () (heap.bound space object identity) := by
  have notRefused : ¬ ((heap.contentsAt identity).owner ≠ 0 ∧
      (heap.contentsAt identity).owner ≠ (heap.spaceAt space).key) :=
    fun refused => accepted.elim refused.1 refused.2
  unfold bind
  simp only [get_bind, notRefused, if_false]
  rfl

/-- Contents that belong to another space are refused, and nothing changes. -/
theorem bind_of_refused
    (owned : (heap.contentsAt identity).owner ≠ 0)
    (elsewhere : (heap.contentsAt identity).owner ≠ (heap.spaceAt space).key) :
    bind space object identity heap = .error (.telling .sharedObject object.number) heap := by
  unfold bind
  rw [get_bind, get_bind, if_pos ⟨owned, elsewhere⟩]
  rfl

/-- What a space may bind no other space binds. -/
theorem Keyed.eq_of_accepted
    (keyed : heap.Keyed)
    (present : space < heap.spaces.size)
    (accepted : (heap.contentsAt identity).owner = 0 ∨
      (heap.contentsAt identity).owner = (heap.spaceAt space).key)
    {other : Nat}
    {another : MemoryObject}
    (binds : heap.Binds other another identity) :
    other = space := by
  rcases accepted with free | owns
  · exact absurd binds (keyed.unbound identity free other another)
  · exact keyed.sole space present identity owns other another binds

/-- Binding gives contents the key of their space, so no other space comes to own them. -/
theorem Keyed.bound
    (keyed : heap.Keyed)
    (present : space < heap.spaces.size)
    (inside : identity < heap.contents.size)
    (accepted : (heap.contentsAt identity).owner = 0 ∨
      (heap.contentsAt identity).owner = (heap.spaceAt space).key) :
    (heap.bound space object identity).Keyed := by
  have owner (contents : Nat) :
      ((heap.bound space object identity).contentsAt contents).owner =
        if contents = identity then (heap.spaceAt space).key
        else (heap.contentsAt contents).owner := by
    split
    next same => rw [same, owner_bound_self inside]
    next different => rw [contentsAt_bound_of_ne different]
  constructor
  · constructor
    · simpa only [size_spaces_bound, key_bound] using keyed.key_inj
    · intro contents free other another binds
      rw [owner] at free
      split at free
      next => exact Nat.ne_of_gt (keyed.key_pos space present) free
      next different =>
          rcases binds.of_bound with ⟨_, _, same⟩ | before
          · exact different same
          · exact keyed.unbound contents free other another before
    · intro claimant below contents owns other another binds
      rw [size_spaces_bound] at below
      rw [owner, key_bound] at owns
      split at owns
      next same =>
          -- The contents just bound: only the space that may bind them ever did.
          have claims := keyed.key_inj space present claimant below owns
          rcases binds.of_bound with ⟨here, _, _⟩ | before
          · exact here.trans claims
          · rw [same] at before
            exact (keyed.eq_of_accepted present accepted before).trans claims
      next different =>
          rcases binds.of_bound with ⟨_, _, same⟩ | before
          · exact absurd same different
          · exact keyed.sole claimant below contents owns other another before
  · simpa only [size_spaces_bound, key_bound] using keyed.key_pos
  · intro other
    rw [key_bound]
    exact keyed.key_lt other
  · intro contents
    rw [owner]
    split
    · exact keyed.key_lt space
    · exact keyed.owner_lt contents
  · intro other another contents binds
    rw [size_contents_bound]
    rcases binds.of_bound with ⟨_, _, rfl⟩ | before
    · exact inside
    · exact keyed.bound_lt before

/-- Whether it is refused or not, binding keeps keys exclusive. -/
theorem Keyed.bind
    (keyed : heap.Keyed)
    (present : space < heap.spaces.size)
    (inside : identity < heap.contents.size) :
    (final (bind space object identity) heap).Keyed := by
  unfold final
  by_cases free : (heap.contentsAt identity).owner = 0
  · rw [bind_of_accepted (.inl free)]
    exact keyed.bound present inside (.inl free)
  · by_cases owns : (heap.contentsAt identity).owner = (heap.spaceAt space).key
    · rw [bind_of_accepted (.inr owns)]
      exact keyed.bound present inside (.inr owns)
    · rw [bind_of_refused free owns]
      exact keyed

/-! ## Other spaces on the same contents -/

/--
The spaces have changed, and the contents have not.  A key is new or that of the same space
before; what is bound was bound before, by the same space or by one that has a new key.
-/
structure Respaced (heap later : Heap) : Prop where
  contents_eq : later.contents = heap.contents
  nextKey_le : heap.nextKey ≤ later.nextKey
  key_lt : ∀ space, (later.spaceAt space).key < later.nextKey
  key_old : ∀ space < later.spaces.size, (later.spaceAt space).key < heap.nextKey →
    space < heap.spaces.size ∧ (later.spaceAt space).key = (heap.spaceAt space).key
  key_new : ∀ first < later.spaces.size, ∀ second < later.spaces.size,
    heap.nextKey ≤ (later.spaceAt first).key →
      (later.spaceAt first).key = (later.spaceAt second).key → first = second
  bound_before : ∀ {space object contents}, later.Binds space object contents →
    ∃ older, heap.Binds older object contents ∧
      (older = space ∨ heap.nextKey ≤ (later.spaceAt older).key)

/-- Keys stay exclusive when spaces change in this way, since the owners stay as they are. -/
theorem Keyed.respaced
    {later : Heap}
    (keyed : heap.Keyed)
    (respaced : heap.Respaced later) :
    later.Keyed := by
  have contentsAt (contents : Nat) : later.contentsAt contents = heap.contentsAt contents := by
    unfold Heap.contentsAt
    rw [respaced.contents_eq]
  constructor
  · constructor
    · intro first firstBelow second secondBelow same
      rcases Nat.lt_or_ge (later.spaceAt first).key heap.nextKey with old | new
      · obtain ⟨firstBefore, firstKey⟩ := respaced.key_old first firstBelow old
        obtain ⟨secondBefore, secondKey⟩ := respaced.key_old second secondBelow (same ▸ old)
        exact keyed.key_inj first firstBefore second secondBefore
          (firstKey.symm.trans (same.trans secondKey))
      · exact respaced.key_new first firstBelow second secondBelow new same
    · intro contents free space object binds
      obtain ⟨older, before, _⟩ := respaced.bound_before binds
      rw [contentsAt] at free
      exact keyed.unbound contents free older object before
    · intro claimant below contents owns space object binds
      rw [contentsAt] at owns
      -- Owners were handed out before, so the key of the claimant is an old one.
      have old : (later.spaceAt claimant).key < heap.nextKey :=
        owns ▸ keyed.owner_lt contents
      obtain ⟨wasThere, sameKey⟩ := respaced.key_old claimant below old
      obtain ⟨older, before, isSame⟩ := respaced.bound_before binds
      have wasClaimant := keyed.sole claimant wasThere contents (owns.trans sameKey) older
        object before
      rcases isSame with rfl | new
      · exact wasClaimant
      · rw [wasClaimant] at new
        exact absurd old (Nat.not_lt.2 new)
  · intro space below
    rcases Nat.lt_or_ge (later.spaceAt space).key heap.nextKey with old | new
    · obtain ⟨before, sameKey⟩ := respaced.key_old space below old
      rw [sameKey]
      exact keyed.key_pos space before
    · exact Nat.lt_of_lt_of_le keyed.nextKey_pos new
  · exact respaced.key_lt
  · intro contents
    rw [contentsAt]
    exact Nat.lt_of_lt_of_le (keyed.owner_lt contents) respaced.nextKey_le
  · intro space object contents binds
    obtain ⟨older, before, _⟩ := respaced.bound_before binds
    rw [respaced.contents_eq]
    exact keyed.bound_lt before

theorem Keyed.respaced_unbound
    (keyed : heap.Keyed) :
    heap.Respaced (heap.unbound space object) := by
  have key (other : Nat) :
      ((heap.unbound space object).spaceAt other).key = (heap.spaceAt other).key := by
    rw [spaceAt_unbound]
    split
    next here => rw [here.1]
    next => rfl
  have size : (heap.unbound space object).spaces.size = heap.spaces.size :=
    size_spaces_setSpace _ _ _
  refine ⟨rfl, Nat.le_refl _, fun other => ?_, fun other below _ => ?_, ?_, ?_⟩
  · rw [key]
    exact keyed.key_lt other
  · exact ⟨size ▸ below, key other⟩
  · intro first _ _ _ new
    rw [key] at new
    exact absurd (keyed.key_lt first) (Nat.not_lt.2 new)
  · intro other another contents binds
    refine ⟨other, ?_, .inl rfl⟩
    unfold Binds at binds
    rw [spaceAt_unbound] at binds
    split at binds
    next here =>
        rw [here.1]
        exact Assoc.mem_of_mem_erase binds
    next => exact binds

theorem Keyed.respaced_pushSpace
    (keyed : heap.Keyed) :
    heap.Respaced (heap.pushSpace []) := by
  have newKey : ((heap.pushSpace []).spaceAt heap.spaces.size).key = heap.nextKey := by
    rw [spaceAt_pushSpace, if_pos rfl]
  have old {other : Nat} (different : other ≠ heap.spaces.size) :
      (heap.pushSpace []).spaceAt other = heap.spaceAt other := by
    rw [spaceAt_pushSpace, if_neg different]
  have new {other : Nat} (isNew : heap.nextKey ≤ ((heap.pushSpace []).spaceAt other).key) :
      other = heap.spaces.size := by
    by_cases same : other = heap.spaces.size
    · exact same
    · rw [old same] at isNew
      exact absurd (keyed.key_lt other) (Nat.not_lt.2 isNew)
  refine ⟨rfl, Nat.le_succ _, fun other => ?_, fun other below isOld => ?_, ?_, ?_⟩
  · by_cases same : other = heap.spaces.size
    · rw [same, newKey]
      exact Nat.lt_succ_self _
    · rw [old same]
      exact Nat.lt_succ_of_lt (keyed.key_lt other)
  · have different : other ≠ heap.spaces.size := by
      rintro rfl
      exact absurd isOld (Nat.not_lt.2 (Nat.le_of_eq newKey.symm))
    rw [size_spaces_pushSpace] at below
    rw [old different]
    exact ⟨by omega, rfl⟩
  · intro first _ second _ isNew same
    exact (new isNew).trans (new (same ▸ isNew)).symm
  · intro other another contents binds
    refine ⟨other, ?_, .inl rfl⟩
    unfold Binds at binds
    rw [spaceAt_pushSpace] at binds
    split at binds
    · exact nomatch binds
    · exact binds

/-- The copy of a space has one new key, and the space itself the next. -/
theorem key_copied_eq
    (present : identity < heap.spaces.size)
    (other : Nat) :
    ((heap.copied identity).spaceAt other).key =
      if other = identity then heap.nextKey + 1
      else if other = heap.spaces.size then heap.nextKey
      else (heap.spaceAt other).key := by
  rw [spaceAt_copied]
  by_cases same : other = identity
  · rw [if_pos ⟨same, Nat.lt_succ_of_lt present⟩, if_pos same]
  · rw [if_neg fun here => same here.1, if_neg same, spaceAt_pushSpace]
    split
    · rfl
    · rfl

/-- A copy of a space gives both spaces new keys, so that neither owns what they share. -/
theorem Keyed.respaced_copied
    (keyed : heap.Keyed)
    (present : identity < heap.spaces.size) :
    heap.Respaced (heap.copied identity) := by
  have key := key_copied_eq present
  have older := keyed.key_lt
  refine ⟨rfl, Nat.le_add_right _ 2, fun other => ?_, fun other below isOld => ?_, ?_, ?_⟩
  · have next : (heap.copied identity).nextKey = heap.nextKey + 2 := rfl
    have before := older other
    rw [key, next]
    split
    · omega
    · split <;> omega
  · rw [size_spaces_copied] at below
    rw [key] at isOld ⊢
    split at isOld
    · omega
    · split at isOld
      · omega
      · rw [if_neg ‹_›, if_neg ‹_›]
        exact ⟨by omega, rfl⟩
  · intro first _ second _ isNew same
    have firstKey := key first
    have secondKey := key second
    have before := older first
    grind
  · intro other another contents binds
    rcases binds.of_copied with ⟨_, before⟩ | ⟨_, before⟩
    · refine ⟨identity, before, .inr ?_⟩
      rw [key, if_pos rfl]
      exact Nat.le_succ _
    · exact ⟨other, before, .inl rfl⟩

/-! ## Contents to write -/

/-- Contents that the space owns are written in place. -/
theorem writeable_of_owned
    (writes : (heap.contentsAt identity).readOnly = false)
    (owns : (heap.contentsAt identity).owner = (heap.spaceAt space).key) :
    writeable space object identity heap = .ok identity heap := by
  unfold writeable
  simp only [get_bind, writes, Bool.false_eq_true, if_false, owns, if_true]
  rfl

/-- A private copy belongs to the space that asked for it. -/
theorem Keyed.detached
    (keyed : heap.Keyed)
    (present : space < heap.spaces.size) :
    (heap.detached space object identity).Keyed := by
  refine (keyed.pushContents rfl).bound present ?_ (.inl ?_)
  · rw [size_contents_pushContents]
    exact Nat.lt_succ_self _
  · rw [contentsAt_pushContents_self]
    rfl

/-- Asking for contents to write keeps keys exclusive, and what is given the space owns. -/
theorem Keyed.writeable
    (keyed : heap.Keyed)
    (present : space < heap.spaces.size) :
    Moves (fun _ later => later.Keyed) (writeable space object identity) heap
      fun result later => (later.contentsAt result).owner = (later.spaceAt space).key ∧
        space < later.spaces.size := by
  unfold Moves
  cases protect : (heap.contentsAt identity).readOnly with
  | true =>
      rw [writeable_of_readOnly protect]
      exact ⟨keyed, not_false⟩
  | false =>
      by_cases owns : (heap.contentsAt identity).owner = (heap.spaceAt space).key
      · rw [writeable_of_owned protect owns]
        exact ⟨keyed, owns, present⟩
      · rw [writeable_of_shared protect owns]
        refine ⟨keyed.detached present, ?_, ?_⟩
        · unfold Heap.detached
          rw [owner_bound_self, key_bound]
          rw [size_contents_pushContents]
          exact Nat.lt_succ_self _
        · unfold Heap.detached
          rw [size_spaces_bound]
          exact present

end

end Heap

/-! ## Whatever is done -/

/-- What is done with spaces and contents. -/
inductive Dealing where
  | newSpace
  | copySpace (space : Nat)
  | newContents (object : MemoryObject) (given : Option (List UInt8))
  | copyContents (contents : Nat)
  | protect (contents : Nat) (readOnly : Bool)
  | write (contents : Nat) (offset : Int) (value : Expr)
  | bind (space : Nat) (object : MemoryObject) (contents : Nat)
  | unbind (space : Nat) (object : MemoryObject)
  | writeable (space : Nat) (object : MemoryObject) (contents : Nat)

namespace Dealing

/-- Do it; a refusal or a fault is left behind. -/
def perform : Dealing → HeapM Unit
  | .newSpace => discard Heap.newSpace
  | .copySpace space => discard (Heap.copySpace space)
  | .newContents object given => discard (Heap.newContents object given)
  | .copyContents contents => discard (Heap.copyContents contents)
  | .protect contents readOnly => Heap.onContents contents (modify ({ · with readOnly }))
  | .write contents offset value => Heap.write contents offset value
  | .bind space object contents => Heap.bind space object contents
  | .unbind space object => Heap.unbind space object
  | .writeable space object contents => discard (Heap.writeable space object contents)

/-- The spaces and contents that are named exist. -/
def refers (heap : Heap) : Dealing → Bool
  | .newSpace | .newContents .. => true
  | .copySpace space | .unbind space _ => space < heap.spaces.size
  | .copyContents contents | .protect contents _ | .write contents _ _ =>
      contents < heap.contents.size
  | .bind space _ contents | .writeable space _ contents =>
      space < heap.spaces.size && contents < heap.contents.size

end Dealing

namespace Heap

/-- The heap after a dealing, be it done, refused or failed half way. -/
def undergo (heap : Heap) (dealing : Dealing) : Heap :=
  final dealing.perform heap

/-- Dealings of which each names only what exists when its turn comes. -/
def admits : Heap → List Dealing → Bool
  | _, [] => true
  | heap, dealing :: rest => dealing.refers heap && (heap.undergo dealing).admits rest

theorem final_discard
    {α : Type}
    (action : HeapM α)
    (heap : Heap) :
    final (discard action) heap = final action heap := by
  show final (action >>= fun _ => pure ()) heap = _
  unfold final
  cases ran : action heap with
  | ok result later => rw [bind_of_ok ran]; rfl
  | error fault later => rw [bind_of_error ran]

/-- Every dealing keeps keys exclusive, also one that is refused. -/
theorem Keyed.undergo
    {heap : Heap}
    {dealing : Dealing}
    (keyed : heap.Keyed)
    (refers : dealing.refers heap = true) :
    (heap.undergo dealing).Keyed := by
  unfold Heap.undergo
  cases dealing with
  | newSpace =>
      rw [Dealing.perform, final_discard]
      exact keyed.respaced keyed.respaced_pushSpace
  | copySpace space =>
      rw [Dealing.perform, final_discard]
      exact keyed.respaced (keyed.respaced_copied (of_decide_eq_true refers))
  | newContents object given =>
      rw [Dealing.perform, final_discard]
      exact keyed.newContents given
  | copyContents contents =>
      rw [Dealing.perform, final_discard]
      exact keyed.pushContents rfl
  | protect contents readOnly =>
      refine keyed.of_titles_eq ?_
      show Stays titles (onContents contents (modify ({ · with readOnly }))) heap
      exact titles_onContents fun _ => Stays.modify rfl
  | write contents offset value => exact keyed.of_titles_eq (titles_write offset value)
  | bind space object contents =>
      obtain ⟨present, inside⟩ := Bool.and_eq_true_iff.1 refers
      exact keyed.bind (of_decide_eq_true present) (of_decide_eq_true inside)
  | unbind space object => exact keyed.respaced keyed.respaced_unbound
  | writeable space object contents =>
      obtain ⟨present, _⟩ := Bool.and_eq_true_iff.1 refers
      rw [Dealing.perform, final_discard]
      exact (keyed.writeable (of_decide_eq_true present)).final

/-- So does every run of dealings. -/
theorem Keyed.foldl_undergo
    {heap : Heap}
    {dealings : List Dealing}
    (keyed : heap.Keyed)
    (admitted : heap.admits dealings = true) :
    (dealings.foldl Heap.undergo heap).Keyed := by
  induction dealings generalizing heap with
  | nil => exact keyed
  | cons dealing rest inductionHypothesis =>
      obtain ⟨refers, later⟩ := Bool.and_eq_true_iff.1 admitted
      exact inductionHypothesis (keyed.undergo refers) later

/--
After any dealings, refused and failed ones among them, keys are exclusive, and whatever
contents a space is then given to write are bound by no other space.
-/
theorem exclusive_of_admits
    {dealings : List Dealing}
    (admitted : Heap.admits {} dealings = true) :
    (dealings.foldl undergo {}).Exclusive ∧
      ∀ space < (dealings.foldl undergo {}).spaces.size,
        ∀ (object : MemoryObject) (contents result : Nat) (later : Heap),
          writeable space object contents (dealings.foldl undergo {}) = .ok result later →
            ∀ other another, later.Binds other another result → other = space := by
  have keyed := keyed_empty.foldl_undergo admitted
  refine ⟨keyed.toExclusive, ?_⟩
  intro space present object contents result later ran other another binds
  obtain ⟨keyedLater, owns, presentLater⟩ := (keyed.writeable present).of_ok ran
  exact keyedLater.sole space presentLater result owns other another binds

end Heap

namespace HandedContents

def object (key : Nat) : MemoryObject where
  key := key
  number := 1
  address := 16
  size := 1
  name := "cell"
  allocSite := none
  isLocal := false

/--
Contents are bound twice in one space, the space is copied, and the copy, which shares them,
is refused them under a third object and given a copy of them to write.  The copy is unbound
again and offered to the first space, which is refused it and asks for it to write.
-/
def dealings : List Dealing :=
  [.newSpace, .newContents (object 0) (some [7]), .bind 0 (object 0) 0, .bind 0 (object 1) 0,
    .copySpace 0, .bind 1 (object 2) 0, .writeable 1 (object 0) 0, .unbind 1 (object 0),
    .bind 0 (object 2) 1, .protect 0 true, .writeable 0 (object 1) 0,
    .writeable 0 (object 2) 1]

end HandedContents

open HandedContents in
/-- The copy may have what the first space owns only as another copy. -/
theorem exclusive_of_admits_handed :
    let heap := dealings.foldl Heap.undergo {}
    heap.spaces.toList.map Space.key = [3, 2] ∧
      heap.spaces.toList.map Space.bindings =
        [[(object 0, 0), (object 1, 0), (object 2, 2)], [(object 1, 0)]] ∧
      heap.contents.toList.map Contents.owner = [1, 2, 3] ∧ heap.Exclusive ∧
      (Heap.writeable 1 (object 0) 2).run' heap = some 3 ∧
      ∀ result later, Heap.writeable 1 (object 0) 2 heap = .ok result later →
        ∀ other another, later.Binds other another result → other = 1 := by
  have admitted : Heap.admits {} dealings = true := by decide +kernel
  refine ⟨by decide +kernel, by decide +kernel, by decide +kernel,
    (Heap.exclusive_of_admits admitted).1, by decide +kernel, ?_⟩
  exact (Heap.exclusive_of_admits admitted).2 1 (by decide +kernel) (object 0) 2

end Diverge
