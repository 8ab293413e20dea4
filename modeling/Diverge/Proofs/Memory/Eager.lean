import Diverge.Proofs.Memory.Opening

/-!
# Copying on write refines copying at once

`Eager` is memory without sharing: each space has contents of its own, a copy of a
space duplicates all of them, and a write changes them in place.  The operations of
a program on its memory are run both on a heap and on eager memory, and
`run_heap_eq_run_eager` says that nothing tells the two apart: every operation has
the same answer or the same fault, and afterwards every space shows the same
objects with the same contents.

The proof is a simulation.  A heap and eager memory are related when the heap is
owned and the listings agree; every operation keeps them related, and while an
object is written they stay related with its contents granted.
-/

namespace Diverge

open Stateful

/-! ## Memory that copies at once -/

/-- Address spaces that share nothing. -/
structure Eager where
  table : Table := {}
  spaces : Array (Assoc MemoryObject Contents) := #[]

/-- Computations on eager memory. -/
abbrev EagerM := EStateM Fault Eager

namespace Eager

/-- What a space binds. -/
def listing (memory : Eager) (space : Nat) : Assoc MemoryObject Contents :=
  memory.spaces.getD space []

/-- The contents of an object in a space. -/
def image? (memory : Eager) (space : Nat) (object : MemoryObject) : Option Contents :=
  (memory.listing space).get? object

/-- The memory with other bindings in a space. -/
def setListing
    (memory : Eager) (space : Nat) (listing : Assoc MemoryObject Contents) : Eager :=
  { memory with spaces := memory.spaces.setIfInBounds space listing }

/-- Build expressions. -/
def build {α : Type} (action : Build α) : EagerM α := fun memory =>
  match action memory.table with
  | .ok result table => .ok result { memory with table }
  | .error fault table => .error fault { memory with table }

/-- A space with bindings of its own. -/
def addSpace (listing : Assoc MemoryObject Contents) : EagerM Nat := fun memory =>
  .ok memory.spaces.size { memory with spaces := memory.spaces.push listing }

/-- Duplicate a space with all its contents. -/
def copySpace (space : Nat) : EagerM Nat := do
  addSpace ((← get).listing space)

/-- Bind an object. -/
def bind (space : Nat) (object : MemoryObject) (contents : Contents) : EagerM Unit :=
  modify fun memory => memory.setListing space ((memory.listing space).put object contents)

/-- Drop a binding. -/
def unbind (space : Nat) (object : MemoryObject) : EagerM Unit :=
  modify fun memory => memory.setListing space ((memory.listing space).erase object)

/-- Change the contents of an object in place. -/
def onImage {α : Type} (space : Nat) (object : MemoryObject)
    (action : EStateM Fault Contents α) : EagerM α := fun memory =>
  let replace (changed : Contents) : Eager :=
    memory.setListing space ((memory.listing space).put object changed)
  match memory.image? space object with
  | none => .error (.absent "write8") memory
  | some image =>
      match action image with
      | .ok result changed => .ok result (replace changed)
      | .error fault changed => .error fault (replace changed)

/-- Build a byte and write it. -/
def writeByte (space : Nat) (object : MemoryObject) (offset : Int) (byte : Build Expr) :
    EagerM Unit := do
  let value ← build byte
  onImage space object (Contents.writeByte offset value)

/-- Write `count` bytes of a value from its byte `place` on. -/
def writeBytes (space : Nat) (object : MemoryObject) (offset : Int) (value : Expr)
    (place : Nat) : (count : Nat) → EagerM Unit
  | 0 => pure ()
  | count + 1 => do
      writeByte space object (offset + place) (Build.extract value (8 * place) 8)
      writeBytes space object offset value (place + 1) count

/-- Write a value, the least significant byte first. -/
def write (space : Nat) (object : MemoryObject) (offset : Int) (value : Expr) :
    EagerM Unit :=
  if value.width = 1 then writeByte space object offset (Build.zext value 8)
  else writeBytes space object offset value 0 (value.width / 8).toNat

/-- Write an object that is bound and not read-only. -/
def update (space : Nat) (object : MemoryObject) (write : EagerM Unit) : EagerM Unit := do
  match (← get).image? space object with
  | none => throw (.absent "read_only")
  | some image =>
      if image.readOnly then throw (.telling .readOnlyObject object.number) else write

/-- Read an object that is bound. -/
def fetch (space : Nat) (object : MemoryObject) (read : Contents → Build Expr) :
    EagerM Expr := do
  match (← get).image? space object with
  | none => throw (.absent "read8")
  | some image => build (read image)

end Eager

namespace Heap

/-- Read an object that is bound. -/
def fetch (space : Nat) (object : MemoryObject) (read : Contents → Build Expr) :
    HeapM Expr := do
  match (← get).find? space object with
  | none => throw (.absent "read8")
  | some contents => build (read ((← get).contentsAt contents))

end Heap

/-! ## Operations -/

/-- What a program does with its memory. -/
inductive Operation where
  | create
  | copy (space : Nat)
  | bind (space : Nat) (object : MemoryObject) (fresh : Contents)
  | unbind (space : Nat) (object : MemoryObject)
  | write (space : Nat) (object : MemoryObject) (offset : Int) (value : Expr)
  | writeByte (space : Nat) (object : MemoryObject) (offset : Int) (value : Expr)
  | read (space : Nat) (object : MemoryObject) (offset width : Int)
  | readByte (space : Nat) (object : MemoryObject) (offset : Int)
  | build (action : Build Expr)

/-- What an operation answers. -/
inductive Answer where
  | space (identity : Nat)
  | value (expression : Expr)
  | done

/-- Do an operation on a heap. -/
def Heap.perform : Operation → HeapM Answer
  | .create => do pure (.space (← newSpace))
  | .copy space => do pure (.space (← copySpace space))
  | .bind space object fresh => do
      bindFresh space object fresh
      pure .done
  | .unbind space object => do
      unbind space object
      pure .done
  | .write space object offset value => do
      update space object fun target => write target offset value
      pure .done
  | .writeByte space object offset value => do
      update space object fun target => onContents target (Contents.writeByte offset value)
      pure .done
  | .read space object offset width => do
      pure (.value (← fetch space object (·.read offset width)))
  | .readByte space object offset => do
      pure (.value (← fetch space object fun contents => ofExcept (contents.readByte offset)))
  | .build action => do pure (.value (← Heap.build action))

/-- Do an operation on eager memory. -/
def Eager.perform : Operation → EagerM Answer
  | .create => do pure (.space (← addSpace []))
  | .copy space => do pure (.space (← copySpace space))
  | .bind space object fresh => do
      bind space object fresh.copy
      pure .done
  | .unbind space object => do
      unbind space object
      pure .done
  | .write space object offset value => do
      update space object (write space object offset value)
      pure .done
  | .writeByte space object offset value => do
      update space object (onImage space object (Contents.writeByte offset value))
      pure .done
  | .read space object offset width => do
      pure (.value (← fetch space object (·.read offset width)))
  | .readByte space object offset => do
      pure (.value (← fetch space object fun contents => ofExcept (contents.readByte offset)))
  | .build action => do pure (.value (← Eager.build action))

/-- What all spaces show. -/
def Heap.snapshot (heap : Heap) : List (Assoc MemoryObject Contents) :=
  (List.range heap.spaces.size).map heap.listing

/-- What all spaces show. -/
def Eager.snapshot (memory : Eager) : List (Assoc MemoryObject Contents) :=
  (List.range memory.spaces.size).map memory.listing

/-- What each of several operations answers, and what all spaces show after it. -/
def runOperations
    {σ : Type}
    (perform : Operation → EStateM Fault σ Answer)
    (snapshot : σ → List (Assoc MemoryObject Contents)) :
    List Operation → σ →
      List (Except Fault Answer × List (Assoc MemoryObject Contents))
  | [], _ => []
  | operation :: rest, state =>
      match perform operation state with
      | .ok answer later =>
          (.ok answer, snapshot later) :: runOperations perform snapshot rest later
      | .error fault later =>
          (.error fault, snapshot later) :: runOperations perform snapshot rest later

/-! ## The simulation -/

/-- The heap is owned and shows what the eager memory holds. -/
structure Related (heap : Heap) (memory : Eager) : Prop where
  owned : heap.Owned
  table_eq : memory.table = heap.table
  size_eq : memory.spaces.size = heap.spaces.size
  listing_eq : ∀ space, memory.listing space = heap.listing space

/-- Two computations end alike, and in related states. -/
def Agrees
    {α : Type}
    (relation : Heap → Eager → Prop)
    (left : EStateM.Result Fault Heap α)
    (right : EStateM.Result Fault Eager α) : Prop :=
  match left, right with
  | .ok first heap, .ok second memory => first = second ∧ relation heap memory
  | .error first heap, .error second memory => first = second ∧ relation heap memory
  | _, _ => False

section

variable {α β : Type} {relation : Heap → Eager → Prop} {heap : Heap} {memory : Eager}

theorem Agrees.mono
    {weaker : Heap → Eager → Prop}
    (implies : ∀ heap memory, relation heap memory → weaker heap memory)
    {left : EStateM.Result Fault Heap α}
    {right : EStateM.Result Fault Eager α}
    (agrees : Agrees relation left right) :
    Agrees weaker left right := by
  cases left with
  | ok first heap =>
      cases right with
      | ok second memory => exact ⟨agrees.1, implies heap memory agrees.2⟩
      | error fault memory => exact agrees
  | error first heap =>
      cases right with
      | ok second memory => exact agrees
      | error fault memory => exact ⟨agrees.1, implies heap memory agrees.2⟩

/-- Two memories that agree after one step, and from there on, agree in the end. -/
theorem Agrees.bind
    {left : HeapM α}
    {right : EagerM α}
    {leftNext : α → HeapM β}
    {rightNext : α → EagerM β}
    (first : Agrees relation (left heap) (right memory))
    (second : ∀ value heap memory, relation heap memory →
      Agrees relation (leftNext value heap) (rightNext value memory)) :
    Agrees relation ((left >>= leftNext) heap) ((right >>= rightNext) memory) := by
  cases ranLeft : left heap with
  | ok value later =>
      cases ranRight : right memory with
      | ok other after =>
          rw [ranLeft, ranRight] at first
          obtain ⟨rfl, related⟩ := first
          rw [bind_of_ok ranLeft, bind_of_ok ranRight]
          exact second value later after related
      | error fault after =>
          rw [ranLeft, ranRight] at first
          exact first.elim
  | error fault later =>
      cases ranRight : right memory with
      | ok other after =>
          rw [ranLeft, ranRight] at first
          exact first.elim
      | error other after =>
          rw [ranLeft, ranRight] at first
          rw [bind_of_error ranLeft, bind_of_error ranRight]
          exact first

/-- What is built is the same on both sides. -/
theorem Agrees.build
    (sameTable : memory.table = heap.table)
    (keeps : ∀ table, relation { heap with table } { memory with table })
    (action : Build α) :
    Agrees relation (Heap.build action heap) (Eager.build action memory) := by
  unfold Heap.build Eager.build
  rw [sameTable]
  cases action heap.table with
  | ok result table => exact ⟨rfl, keeps table⟩
  | error fault table => exact ⟨rfl, keeps table⟩

end

namespace Related

variable {heap : Heap} {memory : Eager}

theorem withTable
    (related : Related heap memory)
    (table : Table) :
    Related { heap with table } { memory with table } where
  owned := related.owned.withTable table
  table_eq := rfl
  size_eq := related.size_eq
  listing_eq := related.listing_eq

theorem empty : Related {} {} where
  owned := Heap.owned_empty
  table_eq := rfl
  size_eq := rfl
  listing_eq := by
    intro space
    rfl

/--
The eager memory holds for each bound object a copy of the contents that the shared memory
binds.
-/
theorem image?_eq
    (related : Related heap memory)
    (space : Nat)
    (object : MemoryObject) :
    memory.image? space object =
      (heap.find? space object).map fun contents => (heap.contentsAt contents).copy := by
  unfold Eager.image?
  rw [related.listing_eq]
  exact Heap.image?_eq heap space object

/-- Related memories look the same from outside. -/
theorem snapshot_eq
    (related : Related heap memory) :
    heap.snapshot = memory.snapshot := by
  unfold Heap.snapshot Eager.snapshot
  rw [related.size_eq, funext related.listing_eq]

end Related

theorem Eager.listing_setListing
    (memory : Eager)
    (space other : Nat)
    (listing : Assoc MemoryObject Contents) :
    (memory.setListing space listing).listing other =
      if other = space ∧ space < memory.spaces.size then listing
      else memory.listing other :=
  getD_setIfInBounds _ _ _ _ _

/-! ## Spaces and bindings -/

section

variable {heap : Heap} {memory : Eager}

/-- A new space is empty in both. -/
theorem Related.create
    (related : Related heap memory) :
    Agrees Related (Heap.newSpace heap) (Eager.addSpace [] memory) := by
  rw [Heap.newSpace_run]
  refine ⟨related.size_eq.symm, ?_⟩
  constructor
  · exact related.owned.newSpace
  · exact related.table_eq
  · simp [related.size_eq]
  · intro space
    rw [Heap.listing_newSpace, ← related.listing_eq]
    refine (getD_push _ _ _ _).trans ?_
    split
    · rename_i here
      exact (getD_of_size_le _ _ _ (Nat.le_of_eq here.symm)).symm
    · rfl

/-- Sharing the contents of a space looks like copying them all. -/
theorem Related.copy
    (related : Related heap memory)
    (space : Nat) :
    Agrees Related (Heap.copySpace space heap) (Eager.copySpace space memory) := by
  rw [Heap.copySpace_run]
  refine ⟨related.size_eq.symm, ?_⟩
  constructor
  · exact related.owned.copied space
  · exact related.table_eq
  · simp [related.size_eq]
  · intro other
    rw [Heap.listing_copied, ← related.size_eq, ← related.listing_eq,
      ← related.listing_eq]
    exact getD_push _ _ _ _

/-- Binding fresh contents looks the same in both. -/
theorem Related.bind
    (related : Related heap memory)
    (space : Nat)
    (object : MemoryObject)
    (contents : Contents) :
    Agrees Related (Heap.bindFresh space object contents heap)
      (Eager.bind space object contents.copy memory) := by
  rw [Heap.bindFresh_run]
  refine ⟨rfl, ?_⟩
  constructor
  · exact related.owned.bindFresh space object contents
  · exact related.table_eq
  · simp [related.size_eq, Eager.setListing, Heap.pushContents]
  · intro other
    rw [Heap.listing_bound, Eager.listing_setListing,
      heap.contentsAt_pushContents_self, related.size_eq,
      related.owned.listing_pushContents, related.owned.listing_pushContents,
      related.listing_eq, related.listing_eq]
    rfl

/-- So does unbinding. -/
theorem Related.unbind
    (related : Related heap memory)
    (space : Nat)
    (object : MemoryObject) :
    Agrees Related (Heap.unbind space object heap) (Eager.unbind space object memory) := by
  rw [Heap.unbind_run]
  refine ⟨rfl, ?_⟩
  constructor
  · exact related.owned.unbound space object
  · exact related.table_eq
  · simp [related.size_eq, Eager.setListing, Heap.unbound]
  · intro other
    rw [Heap.listing_unbound, Eager.listing_setListing, related.size_eq,
      related.listing_eq, related.listing_eq]

/-! ## Writing -/

/-- Related, and the contents of an object are granted on the heap. -/
structure Writing
    (space : Nat)
    (object : MemoryObject)
    (target : Nat)
    (heap : Heap)
    (memory : Eager) : Prop where
  related : Related heap memory
  grants : heap.Grants space object target

variable {space : Nat} {object : MemoryObject} {target : Nat}

theorem Writing.withTable
    (writing : Writing space object target heap memory)
    (table : Table) :
    Writing space object target { heap with table } { memory with table } :=
  ⟨writing.related.withTable table, writing.grants.withTable table⟩

/-- Bytes are replaced on both sides. -/
theorem Writing.replace
    (writing : Writing space object target heap memory)
    (bytes : List Expr) :
    Writing space object target
      (heap.setContents target { heap.contentsAt target with bytes })
      (memory.setListing space ((memory.listing space).put object
        { (heap.contentsAt target).copy with bytes })) := by
  have present : space < memory.spaces.size := by
    rw [writing.related.size_eq]
    exact writing.grants.binds.lt
  have sameOwner : ({ heap.contentsAt target with bytes } : Contents).owner =
      (heap.contentsAt target).owner := rfl
  refine ⟨?_, writing.grants.setContents sameOwner⟩
  constructor
  · exact writing.related.owned.setContents sameOwner
  · exact writing.related.table_eq
  · simp [Eager.setListing, writing.related.size_eq, Heap.setContents]
  · intro other
    rw [writing.grants.listing_of_rewrites (writing.grants.rewrites_setContents bytes),
      writing.grants.contentsAt_setContents_self, Eager.listing_setListing,
      writing.related.listing_eq, writing.related.listing_eq]
    simp only [present, and_true]
    rfl

/-- What is written to contents that one space alone holds is written to the copy of that space. -/
theorem Writing.onContents
    (writing : Writing space object target heap memory)
    (offset : Int)
    (value : Expr) :
    Agrees (Writing space object target)
      (Heap.onContents target (Contents.writeByte offset value) heap)
      (Eager.onImage space object (Contents.writeByte offset value) memory) := by
  have shown : memory.image? space object = some (heap.contentsAt target).copy := by
    unfold Eager.image?
    rw [writing.related.listing_eq]
    exact writing.grants.image?_eq
  have same : (heap.contentsAt target).copy.bytes = (heap.contentsAt target).bytes := rfl
  unfold Heap.onContents Eager.onImage
  simp only [shown, Contents.writeByte_run, same]
  by_cases byte : value.width = 8
  · simp only [byte, if_true]
    cases Sequence.replace (heap.contentsAt target).bytes offset value with
    | ok bytes => exact ⟨rfl, writing.replace bytes⟩
    | error fault => exact ⟨rfl, writing.replace (heap.contentsAt target).bytes⟩
  · simp only [byte, if_false]
    exact ⟨rfl, writing.replace (heap.contentsAt target).bytes⟩

/-- A byte is built on the same table in both memories, and written at the same offset. -/
theorem Writing.writeByte
    (writing : Writing space object target heap memory)
    (offset : Int)
    (byte : Build Expr) :
    Agrees (Writing space object target)
      (Heap.writeByte target offset byte heap)
      (Eager.writeByte space object offset byte memory) := by
  refine Agrees.bind (Agrees.build writing.related.table_eq writing.withTable byte) ?_
  intro value heap memory writing
  exact writing.onContents offset value

/-- The same for the bytes of a value, one after the other. -/
theorem Writing.writeBytes
    (writing : Writing space object target heap memory)
    (offset : Int)
    (value : Expr)
    (place count : Nat) :
    Agrees (Writing space object target)
      (Heap.writeBytes target offset value place count heap)
      (Eager.writeBytes space object offset value place count memory) := by
  induction count generalizing heap memory place with
  | zero => exact ⟨rfl, writing⟩
  | succ count inductionHypothesis =>
      refine Agrees.bind (writing.writeByte _ _) ?_
      intro _ heap memory writing
      exact inductionHypothesis writing (place + 1)

/-- The same for a value of any width; refusals included. -/
theorem Writing.write
    (writing : Writing space object target heap memory)
    (offset : Int)
    (value : Expr) :
    Agrees (Writing space object target)
      (Heap.write target offset value heap)
      (Eager.write space object offset value memory) := by
  unfold Heap.write Eager.write
  split
  · exact writing.writeByte offset _
  · exact writing.writeBytes offset value 0 _

/-- A write is refused on both sides or made on both sides. -/
theorem Related.update
    (related : Related heap memory)
    {onHeap : Nat → HeapM Unit}
    {onEager : EagerM Unit}
    (writes : ∀ target heap memory, Writing space object target heap memory →
      Agrees (Writing space object target) (onHeap target heap) (onEager memory)) :
    Agrees Related (Heap.update space object onHeap heap)
      (Eager.update space object onEager memory) := by
  unfold Heap.update Eager.update
  rw [get_bind, get_bind, related.image?_eq]
  cases found : heap.find? space object with
  | none => exact ⟨rfl, related⟩
  | some contents =>
      have binds := Heap.binds_of_find? found
      simp only [Option.map_some]
      by_cases protect : (heap.contentsAt contents).readOnly = true
      · have refused : (heap.contentsAt contents).copy.readOnly = true := protect
        rw [bind_of_error (Heap.writeable_of_readOnly protect), if_pos refused]
        exact ⟨rfl, related⟩
      · have accepted : ¬ (heap.contentsAt contents).copy.readOnly = true := protect
        obtain ⟨target, later, ran, opened⟩ :=
          related.owned.writeable_run binds (by simpa using protect)
        rw [bind_of_ok ran, if_neg accepted]
        have relatedLater : Related later memory := {
          owned := opened.grants.owned
          table_eq := related.table_eq.trans opened.table_eq.symm
          size_eq := related.size_eq.trans opened.size_spaces_eq.symm
          listing_eq := fun other =>
            (related.listing_eq other).trans (opened.listing_eq other).symm }
        exact (writes target later memory ⟨relatedLater, opened.grants⟩).mono
          fun _ _ writing => writing.related

/-! ## Reading -/

/-- What does not look at the owner reads the same on both sides. -/
theorem Related.fetch
    (related : Related heap memory)
    {read : Contents → Build Expr}
    (blind : ∀ contents : Contents, read contents.copy = read contents) :
    Agrees Related (Heap.fetch space object read heap)
      (Eager.fetch space object read memory) := by
  unfold Heap.fetch Eager.fetch
  rw [get_bind, get_bind, related.image?_eq]
  cases heap.find? space object with
  | none => exact ⟨rfl, related⟩
  | some contents =>
      simp only [Option.map_some, get_bind, blind]
      exact Agrees.build related.table_eq related.withTable _

theorem Contents.readBytes_copy
    (contents : Contents)
    (offset : Int)
    (count : Nat) :
    contents.copy.readBytes offset count = contents.readBytes offset count := by
  induction count with
  | zero => rfl
  | succ count inductionHypothesis =>
      unfold Contents.readBytes
      rw [inductionHypothesis]
      rfl

/-- Reading does not look at who owns the contents. -/
theorem Contents.read_copy
    (contents : Contents)
    (offset width : Int) :
    contents.copy.read offset width = contents.read offset width := by
  unfold Contents.read
  rw [Contents.readBytes_copy]
  rfl

/-! ## Operations and runs -/

/-- An answer follows what was done. -/
theorem Agrees.answer
    {α : Type}
    {left : HeapM α}
    {right : EagerM α}
    (agrees : Agrees Related (left heap) (right memory))
    (answer : α → Answer) :
    Agrees Related ((do pure (answer (← left))) heap)
      ((do pure (answer (← right))) memory) :=
  Agrees.bind agrees fun _ _ _ related => ⟨rfl, related⟩

/-- Every operation ends alike on both sides. -/
theorem Related.perform
    (related : Related heap memory)
    (operation : Operation) :
    Agrees Related (Heap.perform operation heap) (Eager.perform operation memory) := by
  cases operation with
  | create => exact related.create.answer _
  | copy space => exact (related.copy space).answer _
  | bind space object fresh => exact (related.bind space object fresh).answer _
  | unbind space object => exact (related.unbind space object).answer _
  | write space object offset value =>
      refine Agrees.answer (related.update ?_) _
      intro target heap memory writing
      exact writing.write offset value
  | writeByte space object offset value =>
      refine Agrees.answer (related.update ?_) _
      intro target heap memory writing
      exact writing.onContents offset value
  | read space object offset width =>
      exact (related.fetch (Contents.read_copy · offset width)).answer _
  | readByte space object offset =>
      exact (related.fetch fun _ => rfl).answer _
  | build action =>
      exact (Agrees.build related.table_eq related.withTable action).answer _

/-- Related memories give the same answers in every run, by induction on its operations. -/
theorem Related.runOperations
    (related : Related heap memory)
    (operations : List Operation) :
    runOperations Heap.perform Heap.snapshot operations heap =
      runOperations Eager.perform Eager.snapshot operations memory := by
  induction operations generalizing heap memory with
  | nil => rfl
  | cons operation rest inductionHypothesis =>
      have agrees := related.perform operation
      unfold Diverge.runOperations
      cases ranLeft : Heap.perform operation heap with
      | ok answer later =>
          cases ranRight : Eager.perform operation memory with
          | ok other after =>
              rw [ranLeft, ranRight] at agrees
              obtain ⟨rfl, relatedLater⟩ := agrees
              simp only [relatedLater.snapshot_eq, inductionHypothesis relatedLater]
          | error fault after =>
              rw [ranLeft, ranRight] at agrees
              exact agrees.elim
      | error fault later =>
          cases ranRight : Eager.perform operation memory with
          | ok other after =>
              rw [ranLeft, ranRight] at agrees
              exact agrees.elim
          | error other after =>
              rw [ranLeft, ranRight] at agrees
              obtain ⟨rfl, relatedLater⟩ := agrees
              simp only [relatedLater.snapshot_eq, inductionHypothesis relatedLater]

end

/-- Nothing that a program does with its memory shows that contents are shared. -/
theorem run_heap_eq_run_eager
    (operations : List Operation) :
    runOperations Heap.perform Heap.snapshot operations {} =
      runOperations Eager.perform Eager.snapshot operations {} :=
  Related.empty.runOperations operations

end Diverge
