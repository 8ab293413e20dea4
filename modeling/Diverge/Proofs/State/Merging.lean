import Diverge.State.Merge
import Diverge.Proofs.State.Life

/-!
# What a merge does

A merge joins two states under a guard, the conjunction of what only the receiver
has among its constraints.  A register or byte that both have becomes one that is
the receiver's where the guard holds and the other's where it does not; this is
`Expr.Chosen`, and the merge of registers, of the bytes of an object and of all
objects is described by it.  The description does not depend on how the choices
were simplified, nor on what the table holds.
-/

namespace Diverge

open Stateful

/-! ## One value -/

/-- A value that is `first` where the guard holds and `second` where it does not. -/
structure Expr.Chosen (guard first second value : Expr) : Prop where
  evaluate_eq : ∀ assignment truth, guard.Judged assignment truth →
    value.evaluate assignment = (if truth then first else second).evaluate assignment
  width_eq : first.width = second.width → value.width = first.width

/-- A way to merge two registered values under a guard, in any table from `start` on. -/
def Merger
    (histories : List Updates)
    (start : Table)
    (guard : Expr)
    (value : Expr → Expr → Build Expr)
    (safe : Prop) : Prop :=
  ∀ table, start.Grows table → ∀ first second,
    first.Registered histories table → second.Registered histories table →
      Moves Table.Grows (value first second) table
        (fun merged later =>
          merged.Registered histories later ∧ guard.Chosen first second merged) safe

section

variable
  {histories : List Updates}
  {table : Table}
  {guard : Expr}
  {value : Expr → Expr → Build Expr}
  {safe : Prop}

theorem Merger.grow
    (merger : Merger histories table guard value safe)
    {later : Table}
    (grows : table.Grows later) :
    Merger histories later guard value safe :=
  fun other further => merger other (grows.trans further)

theorem Expr.chosen_self
    (guard expression : Expr) :
    guard.Chosen expression expression expression where
  evaluate_eq := by
    intro assignment truth _
    rw [ite_self]
  width_eq := fun _ => rfl

theorem Build.chosen_selectNode
    {patches : Option (Int × Int)}
    {first second : Expr}
    {multi : Bool} :
    Yields (Build.selectNode patches guard first second multi) table fun merged _ =>
      guard.Chosen first second merged := by
  intro merged later ran
  constructor
  · intro assignment truth judged
    exact Build.evaluate_selectNode judged ran
  · intro _
    obtain ⟨tag, rfl, _, width, _⟩ := Build.selectNode_spec ran
    exact width

theorem Build.chosen_patchSelect
    {first second : Expr}
    {truePatch falsePatch : Option Int} :
    Yields (Build.patchSelect guard first second truePatch falsePatch) table
      fun merged _ => guard.Chosen first second merged := by
  unfold Build.patchSelect
  split
  · exact Build.chosen_selectNode
  · exact Yields.throw

/-- A select chooses between its branches, also where it is simplified to one of them. -/
theorem Build.chosen_select
    {first second : Expr}
    (coherent : first.same second = true → first = second) :
    Yields (Build.select guard first second) table fun merged _ =>
      guard.Chosen first second merged := by
  intro merged later ran
  constructor
  · intro assignment truth judged
    exact Build.evaluate_select judged coherent ran
  · intro sameWidth
    have widths : Yields (Build.select guard first second) table fun merged _ =>
        merged.width = first.width := by
      unfold Build.select
      simp only [Bool.false_eq_true, if_false]
      split
      · refine Yields.pure ?_
        split
        · rfl
        · exact sameWidth.symm
      · split
        · exact Yields.pure rfl
        · intro node after made
          obtain ⟨tag, rfl, _, width, _⟩ := Build.selectNode_spec made
          exact width
    exact widths ran

theorem Build.succeeds_selectNode
    (patches : Option (Int × Int))
    (guard first second : Expr)
    (multi : Bool)
    (table : Table) :
    Succeeds (Build.selectNode patches guard first second multi) table :=
  (Build.succeeds_tag _ _ _ table).bind fun _ _ _ => Succeeds.pure _ _

theorem Build.succeeds_select
    (guard first second : Expr)
    (table : Table) :
    Succeeds (Build.select guard first second) table := by
  unfold Build.select
  simp only [Bool.false_eq_true, if_false]
  split
  · exact Succeeds.pure _ _
  · split
    · exact Succeeds.pure _ _
    · exact Build.succeeds_selectNode _ _ _ _ _ _

theorem Build.succeeds_patchSelect
    (guard first second : Expr)
    {truePatch falsePatch : Option Int}
    (numbered : truePatch ≠ none ∧ falsePatch ≠ none)
    (table : Table) :
    Succeeds (Build.patchSelect guard first second truePatch falsePatch) table := by
  cases truePatch with
  | none => exact (numbered.1 rfl).elim
  | some truePatch =>
      cases falsePatch with
      | none => exact (numbered.2 rfl).elim
      | some falsePatch => exact Build.succeeds_selectNode _ _ _ _ _ _

/-- The value that a merge gives a register or a byte. -/
theorem ExecState.merger_mergedValue
    (receiver other : ExecState)
    (supports : table.Supports histories)
    (registered : guard.Registered histories table)
    (numbered : safe → receiver.patch ≠ none ∧ other.patch ≠ none) :
    Merger histories table guard (receiver.mergedValue other guard) safe := by
  intro later grows first second registeredFirst registeredSecond
  have supportsLater := supports.grow grows
  have guardLater := registered.grow grows
  unfold ExecState.mergedValue
  split
  · refine Moves.pure (Table.Grows.refl later) ⟨registeredFirst, ?_⟩
    rename_i same
    rw [← Expr.Registered.eq_of_same supportsLater registeredFirst registeredSecond same]
    exact Expr.chosen_self guard first
  · split
    · refine (Build.stable_patchSelect _ _ _ _ _).moves_of_total (fun isSafe =>
        Build.succeeds_patchSelect guard first second (numbered isSafe) later) ?_
      intro merged after ran
      exact ⟨Build.registered_patchSelect guardLater registeredFirst registeredSecond ran,
        Build.chosen_patchSelect ran⟩
    · refine (Build.stable_select _ _ _ _).moves_of_total (fun _ =>
        Build.succeeds_select guard first second later) ?_
      intro merged after ran
      exact ⟨Build.registered_select guardLater registeredFirst registeredSecond ran,
        Build.chosen_select (Expr.Registered.eq_of_same supportsLater registeredFirst
          registeredSecond) ran⟩

/-! ## Registers -/

/-- A register after a merge: chosen if both sides define it, and else as it was. -/
def Expr.Joined (guard : Expr) : Option Expr → Option Expr → Option Expr → Prop
  | some first, some second, merged =>
      ∃ value, merged = some value ∧ guard.Chosen first second value
  | first, _, merged => merged = first

/-- The value of a register of a frame. -/
def Frame.register? (frame : Frame) (register : Nat) : Option Expr :=
  frame.locals[register]?.join

/-- The value of a register of a state, frames counted from the oldest. -/
def ExecState.register? (state : ExecState) (frame register : Nat) : Option Expr :=
  state.stack[frame]?.bind (·.register? register)

/-- What no other side defines stays. -/
theorem Expr.joined_none
    (guard : Expr)
    (first : Option Expr) :
    guard.Joined first none first := by
  cases first with
  | none => rfl
  | some first => rfl

/-- One register after a merge. -/
def mergeLocal (value : Expr → Expr → Build Expr) :
    Option Expr → Option Expr → Build (Option Expr)
  | some first, some second => do pure (some (← value first second))
  | first, _ => pure first

theorem mergeLocals_cons
    (first second : Option Expr)
    (firsts seconds : List (Option Expr)) :
    mergeLocals value (first :: firsts) (second :: seconds) = (do
      let merged ← mergeLocal value first second
      pure (merged :: (← mergeLocals value firsts seconds))) := by
  cases first with
  | none => rfl
  | some first =>
      cases second with
      | none => rfl
      | some second => simp [mergeLocals, mergeLocal]

theorem moves_mergeLocal
    (merger : Merger histories table guard value safe)
    (first second : Option Expr)
    (registeredFirst : ∀ expression ∈ first, expression.Registered histories table)
    (registeredSecond : ∀ expression ∈ second, expression.Registered histories table) :
    Moves Table.Grows (mergeLocal value first second) table
      (fun merged later =>
        (∀ expression ∈ merged, expression.Registered histories later) ∧
          guard.Joined first second merged) safe := by
  cases first with
  | none => exact Moves.pure (Table.Grows.refl table) ⟨registeredFirst, rfl⟩
  | some first =>
      cases second with
      | none => exact Moves.pure (Table.Grows.refl table) ⟨registeredFirst, rfl⟩
      | some second =>
          refine Moves.bind Table.Grows.trans ((merger table (Table.Grows.refl table) first
            second (registeredFirst first rfl) (registeredSecond second rfl)).mono ?_)
          rintro merged later _ ⟨registered, chosen⟩
          refine Moves.pure (Table.Grows.refl later) ⟨?_, merged, rfl, chosen⟩
          rintro expression ⟨⟩
          exact registered

/-- Registers are merged one by one. -/
theorem moves_mergeLocals
    (merger : Merger histories table guard value safe)
    (firsts seconds : List (Option Expr))
    (registeredFirsts : ∀ first, some first ∈ firsts → first.Registered histories table)
    (registeredSeconds : ∀ second, some second ∈ seconds →
      second.Registered histories table) :
    Moves Table.Grows (mergeLocals value firsts seconds) table
      (fun merged later =>
        (∀ value, some value ∈ merged → value.Registered histories later) ∧
          ∀ register : Nat, guard.Joined firsts[register]?.join seconds[register]?.join
            merged[register]?.join) safe := by
  induction firsts generalizing seconds table with
  | nil =>
      have nothing : mergeLocals value [] seconds = pure [] := by
        cases seconds <;> rfl
      rw [nothing]
      exact Moves.pure (Table.Grows.refl table) ⟨by simp, fun _ => rfl⟩
  | cons first firsts inductionHypothesis =>
      cases seconds with
      | nil =>
          have same : mergeLocals value (first :: firsts) [] = pure (first :: firsts) := by
            cases first <;> rfl
          rw [same]
          refine Moves.pure (Table.Grows.refl table) ⟨registeredFirsts, ?_⟩
          intro register
          exact Expr.joined_none guard _
      | cons second seconds =>
          rw [mergeLocals_cons]
          refine Moves.bind Table.Grows.trans ((moves_mergeLocal merger first second
            (fun expression is => registeredFirsts expression (is ▸ List.mem_cons_self))
            fun expression is =>
              registeredSeconds expression (is ▸ List.mem_cons_self)).mono ?_)
          rintro merged middle grows ⟨registeredMerged, joinedMerged⟩
          refine Moves.bind Table.Grows.trans ((inductionHypothesis (merger.grow grows)
            seconds
            (fun other member =>
              (registeredFirsts other (List.mem_cons_of_mem _ member)).grow grows)
            fun other member =>
              (registeredSeconds other (List.mem_cons_of_mem _ member)).grow grows).mono ?_)
          rintro rest later growsToo ⟨registered, joined⟩
          refine Moves.pure (Table.Grows.refl later) ⟨?_, ?_⟩
          · intro other member
            rcases List.mem_cons.1 member with here | inRest
            · exact (registeredMerged other here.symm).grow growsToo
            · exact registered other inRest
          · intro register
            cases register with
            | zero => exact joinedMerged
            | succ register => exact joined register

/-- A frame without its registers. -/
def Frame.shape (frame : Frame) : Frame :=
  { frame with locals := [] }

/-- Frames are merged one by one and keep their shape. -/
theorem moves_mergeFrames
    (merger : Merger histories table guard value safe)
    (firsts seconds : List Frame)
    (registeredFirsts : ∀ frame ∈ firsts, ∀ first, some first ∈ frame.locals →
      first.Registered histories table)
    (registeredSeconds : ∀ frame ∈ seconds, ∀ second, some second ∈ frame.locals →
      second.Registered histories table) :
    Moves Table.Grows (mergeFrames value firsts seconds) table
      (fun merged later =>
        (∀ frame ∈ merged, ∀ value, some value ∈ frame.locals →
          value.Registered histories later) ∧
        merged.map Frame.shape = firsts.map Frame.shape ∧
          ∀ frame register : Nat, guard.Joined
            (firsts[frame]?.bind (·.register? register))
            (seconds[frame]?.bind (·.register? register))
            (merged[frame]?.bind (·.register? register))) safe := by
  have trans := Table.Grows.trans
  induction firsts generalizing seconds table with
  | nil =>
      have nothing : mergeFrames value [] seconds = pure [] := by
        cases seconds <;> rfl
      rw [nothing]
      exact Moves.pure (Table.Grows.refl table) ⟨by simp, rfl, fun _ _ => rfl⟩
  | cons first firsts inductionHypothesis =>
      cases seconds with
      | nil =>
          refine Moves.pure (Table.Grows.refl table) ⟨registeredFirsts, rfl, ?_⟩
          intro frame register
          exact Expr.joined_none guard _
      | cons second seconds =>
          refine Moves.bind trans ((moves_mergeLocals merger first.locals second.locals
            (registeredFirsts first List.mem_cons_self)
            (registeredSeconds second List.mem_cons_self)).mono ?_)
          rintro locals middle grows ⟨registeredLocals, joinedLocals⟩
          refine Moves.bind trans ((inductionHypothesis (merger.grow grows) seconds
            (fun frame member other inside =>
              (registeredFirsts frame (List.mem_cons_of_mem _ member) other inside).grow
                grows)
            (fun frame member other inside =>
              (registeredSeconds frame (List.mem_cons_of_mem _ member) other inside).grow
                grows)).mono ?_)
          rintro rest later growsToo ⟨registeredRest, shapes, joined⟩
          refine Moves.pure (Table.Grows.refl later) ⟨?_, ?_, ?_⟩
          · intro frame member other inside
            rcases List.mem_cons.1 member with rfl | inRest
            · exact (registeredLocals other inside).grow growsToo
            · exact registeredRest frame inRest other inside
          · rw [List.map_cons, List.map_cons, shapes]
            rfl
          · intro frame register
            cases frame with
            | zero => exact joinedLocals register
            | succ frame => exact joined frame register

/-! ## Bytes -/

/-- Bytes after a merge: chosen within a range, and else as they were. -/
def BytesMerged
    (guard : Expr) (start stop : Nat) (firsts seconds merged : List Expr) : Prop :=
  ∀ position : Nat,
    if start ≤ position ∧ position < stop then
      ∃ first second value, firsts[position]? = some first ∧
        seconds[position]? = some second ∧ merged[position]? = some value ∧
          guard.Chosen first second value
    else merged[position]? = firsts[position]?

/-- There are bytes on both sides throughout a range. -/
def BytesMatch (start stop : Nat) (firsts seconds : List Expr) : Prop :=
  ∀ position : Nat, start ≤ position → position < stop →
    ∃ first second, firsts[position]? = some first ∧ seconds[position]? = some second ∧
      first.width = 8 ∧ second.width = 8

/-- The contents have as many bytes as the object has addresses. -/
def Contents.Fills (object : MemoryObject) (contents : Contents) : Prop :=
  contents.bytes.length = object.size ∧ ∀ byte ∈ contents.bytes, byte.width = 8

/-- Contents that fill their object have a byte at each of its places. -/
theorem Contents.Fills.byte
    {object : MemoryObject}
    {contents : Contents}
    (fills : contents.Fills object)
    {position : Nat}
    (inside : position < object.size.toNat) :
    ∃ byte, contents.bytes[position]? = some byte ∧ byte.width = 8 := by
  have size := fills.1
  have within : position < contents.bytes.length := by omega
  exact ⟨_, List.getElem?_eq_getElem within, fills.2 _ (List.getElem_mem within)⟩

theorem Contents.Fills.bytesMatch
    {object : MemoryObject}
    {first second : Contents}
    (fills : first.Fills object)
    (fillsToo : second.Fills object) :
    BytesMatch 0 object.size.toNat first.bytes second.bytes := by
  intro position _ inside
  obtain ⟨one, isOne, width⟩ := fills.byte inside
  obtain ⟨other, isOther, widthToo⟩ := fillsToo.byte inside
  exact ⟨one, other, isOne, isOther, width, widthToo⟩

/-- Contents after a merge of their first bytes. -/
structure ContentsMerged
    (guard : Expr) (size : Nat) (first second merged : Contents) : Prop where
  rest_eq : merged = { first with bytes := merged.bytes }
  bytes : BytesMerged guard 0 size first.bytes second.bytes merged.bytes

variable
  {heap : Heap}
  {space other : Nat}
  {object : MemoryObject}
  {target source : Nat}

/-- A merged byte chooses between the bytes of both sides, and nothing else is written. -/
theorem moves_mergeByte
    (sound : heap.Sound histories)
    (merger : Merger histories heap.table guard value safe)
    (grants : heap.Grants space object target)
    {offset : Nat}
    (fits : safe → BytesMatch offset (offset + 1) (heap.contentsAt target).bytes
      (heap.contentsAt source).bytes) :
    Moves (Heap.Evolves histories) (Execution.mergeByte value target source offset) heap
      (fun _ later =>
        later.Grants space object target ∧ heap.Rewrites target later ∧
          ∃ first second merged,
            (heap.contentsAt target).bytes[offset]? = some first ∧
              (heap.contentsAt source).bytes[offset]? = some second ∧
                guard.Chosen first second merged ∧
                  (later.contentsAt target).bytes =
                    (heap.contentsAt target).bytes.set offset merged) safe := by
  have trans := @Heap.Evolves.trans histories
  have stays := Heap.Evolves.refl sound
  have there (isSafe : safe) := fits isSafe offset (Nat.le_refl _) (Nat.lt_succ_self _)
  unfold Execution.mergeByte Moves
  rw [get_bind]
  refine Moves.bind trans (Moves.ofExcept_of_total stays ?_ fun first found => ?_)
  · intro isSafe
    obtain ⟨first, _, isFirst, _⟩ := there isSafe
    exact ⟨first, Sequence.fetch_of_getElem? isFirst⟩
  unfold Moves
  rw [get_bind]
  refine Moves.bind trans (Moves.ofExcept_of_total stays ?_ fun second foundToo => ?_)
  · intro isSafe
    obtain ⟨_, second, _, isSecond, _⟩ := there isSafe
    exact ⟨second, Sequence.fetch_of_getElem? isSecond⟩
  have isFirst := Sequence.getElem?_of_fetch found
  have isSecond := Sequence.getElem?_of_fetch foundToo
  have merges := merger heap.table (Table.Grows.refl _) first second
    (sound.bytes target first (Sequence.mem_of_fetch found))
    (sound.bytes source second (Sequence.mem_of_fetch foundToo))
  refine Moves.bind trans ((Heap.moves_build sound merges).mono ?_)
  rintro merged middle evolves ⟨⟨registered, chosen⟩, same⟩
  have granted : middle.Grants space object target := by
    rw [same]
    exact grants.withTable _
  have sameContents : middle.contentsAt target = heap.contentsAt target := by
    rw [same]
    rfl
  refine (Heap.moves_onContents evolves.sound granted offset registered ?_).mono ?_
  · intro isSafe
    obtain ⟨one, other, isOne, isOther, width, widthToo⟩ := there isSafe
    cases isFirst.symm.trans isOne
    cases isSecond.symm.trans isOther
    rw [sameContents]
    exact ⟨(chosen.width_eq (width.trans widthToo.symm)).trans width, _,
      Sequence.replace_of_lt (List.getElem?_eq_some_iff.1 isFirst).1 merged⟩
  rintro _ later _ ⟨grantedLater, bytes, replaced, _, rfl⟩
  obtain ⟨_, rfl⟩ := Sequence.eq_set_of_replace replaced
  refine ⟨grantedLater, ?_, first, second, merged, isFirst, isSecond, chosen, ?_⟩
  · refine Heap.Rewrites.trans ?_ (granted.rewrites_setContents _)
    rw [same]
    exact Heap.rewrites_withTable target heap _
  · rw [granted.contentsAt_setContents_self, sameContents]

/-- The same for a stretch of bytes, by induction on their number. -/
theorem moves_mergeBytes
    (sound : heap.Sound histories)
    (merger : Merger histories heap.table guard value safe)
    (grants : heap.Grants space object target)
    (apart : source ≠ target)
    {offset count : Nat}
    (fits : safe → BytesMatch offset (offset + count) (heap.contentsAt target).bytes
      (heap.contentsAt source).bytes) :
    Moves (Heap.Evolves histories)
      (Execution.mergeBytes value target source offset count) heap
      (fun _ later =>
        later.Grants space object target ∧ heap.Rewrites target later ∧
          BytesMerged guard offset (offset + count) (heap.contentsAt target).bytes
            (heap.contentsAt source).bytes (later.contentsAt target).bytes) safe := by
  have trans := @Heap.Evolves.trans histories
  induction count generalizing heap offset with
  | zero =>
      refine Moves.pure (Heap.Evolves.refl sound) ⟨grants, Heap.Rewrites.refl _ _, ?_⟩
      intro position
      rw [if_neg (by omega)]
  | succ count inductionHypothesis =>
      refine Moves.bind trans ((moves_mergeByte sound merger grants fun isSafe =>
        fun position after before => fits isSafe position after (by omega)).mono ?_)
      rintro _ middle evolves
        ⟨granted, rewrites, first, second, merged, isFirst, isSecond, chosen, bytes⟩
      have inside := (List.getElem?_eq_some_iff.1 isFirst).1
      have sameSource := rewrites.contentsAt_eq source apart
      refine (inductionHypothesis evolves.sound (merger.grow evolves.grows) granted ?_).mono
        ?_
      · intro isSafe position after before
        rw [bytes, sameSource, List.getElem?_set_ne (by omega)]
        exact fits isSafe position (by omega) (by omega)
      rintro _ later _ ⟨grantedLater, rewritesToo, mergedBytes⟩
      refine ⟨grantedLater, rewrites.trans rewritesToo, ?_⟩
      intro position
      have atPosition := mergedBytes position
      rw [bytes, sameSource] at atPosition
      by_cases here : position = offset
      · -- The byte that was merged first is not touched again.
        subst here
        rw [if_neg (by omega), List.getElem?_set_self inside] at atPosition
        rw [if_pos (by omega)]
        exact ⟨first, second, merged, isFirst, isSecond, atPosition, chosen⟩
      · rw [List.getElem?_set_ne (Ne.symm here)] at atPosition
        by_cases later : offset + 1 ≤ position ∧ position < offset + 1 + count
        · rw [if_pos later] at atPosition
          rw [if_pos (by omega)]
          exact atPosition
        · rw [if_neg later] at atPosition
          rw [if_neg (by omega)]
          exact atPosition

/-! ## Objects -/

/-- An image after a merge: merged if both spaces have one, and else as it was. -/
def ImageMerged
    (guard : Expr) (object : MemoryObject) :
    Option Contents → Option Contents → Option Contents → Prop
  | some first, some second, image =>
      ∃ merged, image = some merged ∧
        ContentsMerged guard object.size.toNat first second merged
  | first, _, image => image = first

/-- What a space shows after some of its objects were merged with those of another. -/
structure Heap.Absorbs
    (guard : Expr)
    (space other : Nat)
    (objects : List MemoryObject)
    (before after : Heap) : Prop where
  elsewhere : ∀ another ≠ space, after.listing another = before.listing another
  keys_eq : (after.listing space).map Prod.fst = (before.listing space).map Prod.fst
  image_merged : ∀ object ∈ objects, ImageMerged guard object
    (before.image? space object) (before.image? other object) (after.image? space object)
  image_eq : ∀ object, object ∉ objects →
    after.image? space object = before.image? space object

theorem Heap.Absorbs.refl
    (heap : Heap)
    (guard : Expr)
    (space other : Nat) :
    heap.Absorbs guard space other [] heap :=
  ⟨fun _ _ => rfl, rfl, fun _ member => (nomatch member), fun _ _ => rfl⟩

/-- Objects are absorbed one after the other, since absorbing one does not touch the others. -/
theorem Heap.Absorbs.cons
    {before middle after : Heap}
    {objects : List MemoryObject}
    (first : before.Absorbs guard space other [object] middle)
    (rest : middle.Absorbs guard space other objects after)
    (apart : other ≠ space)
    (new : object ∉ objects) :
    before.Absorbs guard space other (object :: objects) after := by
  constructor
  · intro another different
    rw [rest.elsewhere another different, first.elsewhere another different]
  · rw [rest.keys_eq, first.keys_eq]
  · intro listed member
    rcases List.mem_cons.1 member with rfl | inRest
    · rw [rest.image_eq listed new]
      exact first.image_merged listed List.mem_cons_self
    · have different : listed ∉ [object] := by
        rw [List.mem_singleton]
        rintro rfl
        exact new inRest
      have merged := rest.image_merged listed inRest
      unfold Heap.image? at merged
      rw [first.elsewhere other apart] at merged
      have same := first.image_eq listed different
      unfold Heap.image? at same
      rw [same] at merged
      exact merged
  · intro listed absent
    rw [List.mem_cons, not_or] at absent
    rw [rest.image_eq listed absent.2]
    exact first.image_eq listed (by simpa using absent.1)

/-- What is granted for writing shows what the space showed. -/
theorem Heap.Opened.image?_target
    {opened : Heap}
    (opens : heap.Opened space object target opened) :
    heap.image? space object = some (opened.contentsAt target).copy := by
  have image := opens.grants.image?_eq
  unfold Heap.image? at image ⊢
  rw [opens.listing_eq] at image
  exact image

theorem Heap.Opened.image?_of_binds
    {opened : Heap}
    (opens : heap.Opened space object target opened)
    (binds : opened.Binds other object source) :
    heap.image? other object = some (opened.contentsAt source).copy := by
  have image := Heap.image?_eq opened other object
  rw [opens.grants.owned.find?_of_binds binds] at image
  unfold Heap.image? at image ⊢
  rw [opens.listing_eq] at image
  exact image

/-- Contents that were opened for writing and then merged. -/
theorem Heap.Opened.absorbs
    {opened later : Heap}
    (opens : heap.Opened space object target opened)
    (binds : opened.Binds other object source)
    (rewrites : opened.Rewrites target later)
    (bytes : BytesMerged guard 0 object.size.toNat (opened.contentsAt target).bytes
      (opened.contentsAt source).bytes (later.contentsAt target).bytes) :
    heap.Absorbs guard space other [object] later := by
  have image := opens.image?_target
  have listing (another : Nat) := opens.grants.listing_of_rewrites rewrites another
  simp only [opens.listing_eq] at listing
  constructor
  · intro another different
    rw [listing, if_neg different]
  · rw [listing, if_pos rfl, Assoc.keys_put, if_pos]
    exact List.mem_map.2 ⟨_, Assoc.mem_of_get? image, rfl⟩
  · intro listed member
    have imageLater : later.image? space object = some (later.contentsAt target).copy := by
      unfold Heap.image?
      rw [listing, if_pos rfl, Assoc.get?_put_self]
    rw [List.mem_singleton.1 member, image, opens.image?_of_binds binds, imageLater]
    refine ⟨_, rfl, ?_, bytes⟩
    rw [rewrites.rest_eq]
    rfl
  · intro listed absent
    rw [List.mem_singleton] at absent
    unfold Heap.image?
    rw [listing, if_pos rfl, Assoc.get?_put_of_ne _ absent]

/-- The images of an object that two spaces show can be merged. -/
def Heap.Matches (heap : Heap) (space other : Nat) (object : MemoryObject) : Prop :=
  ∀ first ∈ heap.image? space object, ∀ second ∈ heap.image? other object,
    first.readOnly = false ∧ first.Fills object ∧ second.Fills object

/-- An object that both spaces bind is merged byte by byte into contents of the receiver's own. -/
theorem moves_mergeObject
    (sound : heap.Sound histories)
    (merger : Merger histories heap.table guard value safe)
    (apart : other ≠ space)
    {object : MemoryObject}
    (fits : safe → heap.Matches space other object) :
    Moves (Heap.Evolves histories) (Execution.mergeObject value space other object) heap
      (fun _ later => heap.Absorbs guard space other [object] later) safe := by
  have stays := Heap.Evolves.refl sound
  have missing
      (absent : heap.image? space object = none ∨ heap.image? other object = none) :
      heap.Absorbs guard space other [object] heap := by
    refine ⟨fun _ _ => rfl, rfl, ?_, fun _ _ => rfl⟩
    intro listed member
    rw [List.mem_singleton.1 member]
    rcases absent with none | none
    · rw [none]
      rfl
    · rw [none]
      cases heap.image? space object <;> rfl
  have image := Heap.image?_eq heap space object
  have imageOther := Heap.image?_eq heap other object
  unfold Execution.mergeObject Moves
  rw [get_bind]
  change Moves (Heap.Evolves histories) _ heap _ safe
  cases found : heap.find? space object with
  | none =>
      rw [found] at image
      exact Moves.pure stays (missing (Or.inl image))
  | some contents =>
      cases foundOther : heap.find? other object with
      | none =>
          rw [foundOther] at imageOther
          exact Moves.pure stays (missing (Or.inr imageOther))
      | some source =>
          rw [found] at image
          rw [foundOther] at imageOther
          refine Moves.bind Heap.Evolves.trans ?_
          by_cases protect : (heap.contentsAt contents).readOnly = true
          · unfold Moves
            rw [Heap.writeable_of_readOnly protect]
            refine ⟨stays, fun isSafe => ?_⟩
            have writes := (fits isSafe _ image _ imageOther).1
            exact Bool.false_ne_true (writes.symm.trans protect)
          · obtain ⟨target, opened, ran, opens⟩ := sound.owned.writeable_run
              (Heap.binds_of_find? found) (by simpa using protect)
            have evolves := opens.evolves sound
            -- What the space owns is bound by no other space.
            have binds : opened.Binds other object source := by
              unfold Heap.Binds
              rw [opens.spaceAt_eq other apart]
              exact Heap.binds_of_find? foundOther
            have differ : source ≠ target := by
              rintro rfl
              exact apart (opens.grants.owned.alone opens.grants.binds
                opens.grants.owner binds).1
            have bytes : safe → BytesMatch 0 (0 + object.size.toNat)
                (opened.contentsAt target).bytes (opened.contentsAt source).bytes := by
              intro isSafe
              have shown := opens.image?_target
              have shownOther := opens.image?_of_binds binds
              obtain ⟨_, fills, fillsToo⟩ := fits isSafe _ shown _ shownOther
              rw [Nat.zero_add]
              exact fills.bytesMatch fillsToo
            have merges := moves_mergeBytes evolves.sound (merger.grow evolves.grows)
              opens.grants differ bytes
            unfold Moves
            rw [ran]
            refine ⟨evolves, merges.mono ?_⟩
            rintro _ later _ ⟨_, rewrites, bytes⟩
            rw [Nat.zero_add] at bytes
            exact opens.absorbs binds rewrites bytes

/-- The same for all objects that differ. -/
theorem moves_mergeObjects
    (sound : heap.Sound histories)
    (merger : Merger histories heap.table guard value safe)
    {objects : List MemoryObject}
    (apart : objects ≠ [] → other ≠ space)
    (once : objects.Nodup)
    (fits : safe → ∀ object ∈ objects, heap.Matches space other object) :
    Moves (Heap.Evolves histories)
      (objects.forM (Execution.mergeObject value space other)) heap
      (fun _ later => heap.Absorbs guard space other objects later) safe := by
  induction objects generalizing heap with
  | nil => exact Moves.pure (Heap.Evolves.refl sound) (Heap.Absorbs.refl heap guard space other)
  | cons object rest inductionHypothesis =>
      have differ := apart (List.cons_ne_nil _ _)
      rw [List.nodup_cons] at once
      refine Moves.bind Heap.Evolves.trans ((moves_mergeObject sound merger differ
        fun isSafe => fits isSafe object List.mem_cons_self).mono ?_)
      intro _ middle evolves first
      refine (inductionHypothesis evolves.sound (merger.grow evolves.grows)
        (fun _ => differ) once.2 ?_).mono ?_
      · intro isSafe listed member
        have new : listed ∉ [object] := by
          rw [List.mem_singleton]
          rintro rfl
          exact once.1 member
        have matched := fits isSafe listed (List.mem_cons_of_mem _ member)
        unfold Heap.Matches at matched ⊢
        rw [first.image_eq listed new]
        unfold Heap.image? at matched ⊢
        rw [first.elsewhere other differ]
        exact matched
      intro _ later _ absorbed
      exact first.cons absorbed differ once.1

end

end Diverge
