import Mathlib.Logic.Relation
import Diverge.Proofs.Expr.Registered

/-!
# Building one expression after another

A workshop is a table together with the histories and expressions at hand.  From
the empty workshop, arrays are declared, writes put on top of histories, and
constructors called on what is at hand; what comes out is at hand from then on.
An expression *built by the constructors* is one at hand in a workshop that is
reached in this way.

Every such expression is registered, so in one workshop identity is equality.
-/

namespace Diverge

open Stateful

/-! ## The constructors on registered operands -/

namespace Build

variable {histories : List Updates} {table : Table}

/-- What a known index finds written was written in the history. -/
theorem mem_written_of_known
    {position : Option Int}
    {value : Expr} :
    (updates : Updates) →
      known position updates = .ok (.written value) → value ∈ updates.written
  | .root array, found => by
      unfold known at found
      split at found
      · cases found
      · cases found
      · split at found
        · cases stored : Sequence.fetch _ _ Fault.tupleIndex with
          | ok content =>
              rw [stored] at found
              cases found
          | error fault =>
              rw [stored] at found
              cases found
        · cases found
  | .write id index written older, found => by
      unfold known at found
      split at found
      · cases found
      · split at found
        · cases found
          exact List.mem_cons_of_mem _ List.mem_cons_self
        · exact List.mem_cons_of_mem _
            (List.mem_cons_of_mem _ (mem_written_of_known older found))

/-- A read is registered, also where it gives a value that was written: the history knows that. -/
theorem registered_read
    {updates : Updates}
    {index : Expr}
    {multi : Bool}
    (supports : table.Supports histories)
    (made : updates ∈ histories)
    (operand : index.Registered histories table) :
    Yields (read updates index multi) table fun result later =>
      result.Registered histories later := by
  unfold read
  split
  · refine Yields.bind (Yields.ofExcept fun found looked => ?_)
    cases found with
    | written value =>
        exact Yields.pure
          ((supports.written updates made).of_mem_written (mem_written_of_known updates looked))
    | stored value width =>
        exact fun _ _ ran => registered_constant ran
    | unknown =>
        exact fun _ _ ran => registered_readNode ran supports made operand
  · exact fun _ _ ran => registered_readNode ran supports made operand

/-- A select is registered, also where it gives a branch. -/
theorem registered_select
    {cond onTrue onFalse : Expr}
    {multi : Bool}
    (guard : cond.Registered histories table)
    (first : onTrue.Registered histories table)
    (second : onFalse.Registered histories table) :
    Yields (select cond onTrue onFalse multi) table fun result later =>
      result.Registered histories later := by
  have node : Yields (selectNode none cond onTrue onFalse multi) table
      fun result later => result.Registered histories later :=
    fun _ _ ran => registered_selectNode ran (by simp) guard first second
  unfold select
  split
  · exact node
  · split
    · refine Yields.pure ?_
      split
      · exact first
      · exact second
    · split
      · exact Yields.pure first
      · exact node

theorem registered_patchSelect
    {cond onTrue onFalse : Expr}
    {truePatch falsePatch : Option Int}
    (guard : cond.Registered histories table)
    (first : onTrue.Registered histories table)
    (second : onFalse.Registered histories table) :
    Yields (patchSelect cond onTrue onFalse truePatch falsePatch) table
      fun result later => result.Registered histories later := by
  unfold patchSelect
  split
  · exact fun _ _ ran =>
      registered_selectNode ran (fun _ => rfl) guard first second
  · exact Yields.throw

/-- A concatenation is registered, as a constant or as a node. -/
theorem registered_concat
    {high low : Expr}
    {multi : Bool}
    (upper : high.Registered histories table)
    (lower : low.Registered histories table) :
    Yields (concat high low multi) table fun result later =>
      result.Registered histories later := by
  unfold concat
  split
  · exact Yields.bind fun _ _ _ _ _ ran => registered_constant ran
  · exact fun _ _ ran => registered_concatNode ran upper lower

/-- An extraction is registered, also where it gives its operand. -/
theorem registered_extract
    {source : Expr}
    {offset width : Int}
    {multi : Bool}
    (operand : source.Registered histories table) :
    Yields (extract source offset width multi) table fun result later =>
      result.Registered histories later := by
  unfold extract
  split
  · exact fun _ _ ran => registered_extractNode ran operand
  · split
    · exact Yields.pure operand
    · split
      · exact Yields.bind fun _ _ _ _ _ ran => registered_constant ran
      · exact fun _ _ ran => registered_extractNode ran operand

/-- So is a zero extension, whatever it gives. -/
theorem registered_zext
    {source : Expr}
    {width : Int}
    {multi : Bool}
    (operand : source.Registered histories table) :
    Yields (zext source width multi) table fun result later =>
      result.Registered histories later := by
  unfold zext
  split
  · exact fun _ _ ran => registered_zextNode ran operand
  · split
    · exact Yields.pure operand
    · split
      · exact registered_extract operand
      · split
        · refine Yields.bind (Yields.ofExcept fun word cut => ?_)
          obtain ⟨widthNonneg, nonneg, bound⟩ := Word.truncate?_range cut
          exact fun _ _ ran => registered_constNode ran widthNonneg nonneg bound
        · exact fun _ _ ran => registered_zextNode ran operand

/-- So is a sign extension. -/
theorem registered_sext
    {source : Expr}
    {width : Int}
    {multi : Bool}
    (operand : source.Registered histories table) :
    Yields (sext source width multi) table fun result later =>
      result.Registered histories later := by
  unfold sext
  split
  · exact fun _ _ ran => registered_sextNode ran operand
  · split
    · exact Yields.pure operand
    · split
      · exact registered_extract operand
      · split
        · exact Yields.bind fun _ _ _ _ _ ran => registered_constant ran
        · exact fun _ _ ran => registered_sextNode ran operand

/-- A complement is registered, also where it gives what is below another one. -/
theorem registered_not
    {source : Expr}
    {multi : Bool}
    (operand : source.Registered histories table) :
    Yields (Build.not source multi) table fun result later =>
      result.Registered histories later := by
  unfold Build.not
  split
  · exact fun _ _ ran => registered_notNode ran operand
  · split
    · exact Yields.bind fun _ _ _ _ _ ran => registered_constant ran
    · cases inner : source.kids.head? with
      | none => exact Yields.throw
      | some kid =>
          exact Yields.pure
            (Expr.Throughout.kid operand (List.mem_of_mem_head? inner))
    · exact fun _ _ ran => registered_notNode ran operand

/-- A simplified conjunction or disjunction is one of its operands. -/
theorem simplifyLogic_mem
    {operator : BinaryOp}
    {left right simpler : Expr}
    (simplified : simplifyLogic operator left right = some simpler) :
    simpler = left ∨ simpler = right := by
  unfold simplifyLogic at simplified
  grind

theorem registered_binaryOpen
    {operator : BinaryOp}
    {left right : Expr}
    (first : left.Registered histories table)
    (second : right.Registered histories table) :
    Yields (binaryOpen operator left right) table fun result later =>
      result.Registered histories later := by
  have node : Yields (binaryNode operator left right false) table
      fun result later => result.Registered histories later :=
    fun _ _ ran => registered_binaryNode ran first second
  unfold binaryOpen
  split
  · split
    · rename_i simplified
      rcases simplifyLogic_mem simplified with rfl | rfl
      · exact Yields.pure first
      · exact Yields.pure second
    · exact node
  · exact node

/-- A binary operator gives something registered: a constant, an operand or its node. -/
theorem registered_binary
    {operator : BinaryOp}
    {left right : Expr}
    {multi : Bool}
    (first : left.Registered histories table)
    (second : right.Registered histories table) :
    Yields (binary operator left right multi) table fun result later =>
      result.Registered histories later := by
  unfold binary
  split
  · exact fun _ _ ran => registered_binaryNode ran first second
  · split
    · refine Yields.bind (Yields.ofExcept fun outcome _ => ?_)
      cases outcome with
      | some word => exact fun _ _ ran => registered_constant ran
      | none => exact registered_binaryOpen first second
    · exact registered_binaryOpen first second

end Build

/-! ## Calls of constructors -/

/-- A call of a constructor. -/
inductive Construction where
  | constant (value width : Int)
  | notOptimized (source : Expr) (multi : Bool)
  | read (updates : Updates) (index : Expr) (multi : Bool)
  | select (cond onTrue onFalse : Expr) (multi : Bool)
  | patchSelect (cond onTrue onFalse : Expr) (truePatch falsePatch : Option Int)
  | concat (high low : Expr) (multi : Bool)
  | extract (source : Expr) (offset width : Int) (multi : Bool)
  | zext (source : Expr) (width : Int) (multi : Bool)
  | sext (source : Expr) (width : Int) (multi : Bool)
  | not (source : Expr) (multi : Bool)
  | binary (operator : BinaryOp) (left right : Expr) (multi : Bool)

namespace Construction

/-- Make the call. -/
def run : Construction → Build Expr
  | .constant value width => Build.constant value width
  | .notOptimized source multi => Build.notOptimized source multi
  | .read updates index multi => Build.read updates index multi
  | .select cond onTrue onFalse multi => Build.select cond onTrue onFalse multi
  | .patchSelect cond onTrue onFalse truePatch falsePatch =>
      Build.patchSelect cond onTrue onFalse truePatch falsePatch
  | .concat high low multi => Build.concat high low multi
  | .extract source offset width multi => Build.extract source offset width multi
  | .zext source width multi => Build.zext source width multi
  | .sext source width multi => Build.sext source width multi
  | .not source multi => Build.not source multi
  | .binary operator left right multi => Build.binary operator left right multi

/-- The expressions that a call is given. -/
def operands : Construction → List Expr
  | .constant .. => []
  | .notOptimized source _ | .extract source _ _ _ | .zext source _ _
  | .sext source _ _ | .not source _ => [source]
  | .read _ index _ => [index]
  | .select cond onTrue onFalse _ | .patchSelect cond onTrue onFalse _ _ =>
      [cond, onTrue, onFalse]
  | .concat left right _ | .binary _ left right _ => [left, right]

/-- The history that a call is given. -/
def history? : Construction → Option Updates
  | .read updates _ _ => some updates
  | _ => none

/-- Every constructor call is stable. -/
theorem stable (call : Construction) : Build.Stable call.run := by
  cases call with
  | constant value width => exact Build.stable_constant _ _
  | notOptimized source multi => exact Build.stable_notOptimized _ _
  | read updates index multi => exact Build.stable_read _ _ _
  | select cond onTrue onFalse multi => exact Build.stable_select _ _ _ _
  | patchSelect cond onTrue onFalse truePatch falsePatch =>
      exact Build.stable_patchSelect _ _ _ _ _
  | concat high low multi => exact Build.stable_concat _ _ _
  | extract source offset width multi => exact Build.stable_extract _ _ _ _
  | zext source width multi => exact Build.stable_zext _ _ _
  | sext source width multi => exact Build.stable_sext _ _ _
  | not source multi => exact Build.stable_not _ _
  | binary operator left right multi => exact Build.stable_binary _ _ _ _

/-- Registered operands give a registered result. -/
theorem registered
    {call : Construction}
    {histories : List Updates}
    {table : Table}
    (supports : table.Supports histories)
    (given : ∀ operand ∈ call.operands, operand.Registered histories table)
    (made : ∀ updates ∈ call.history?, updates ∈ histories) :
    Yields call.run table fun result later =>
      result.Registered histories later := by
  cases call with
  | constant value width => exact fun _ _ ran => Build.registered_constant ran
  | notOptimized source multi =>
      have operand := given source (by simp [operands])
      exact fun _ _ ran => Build.registered_notOptimized ran operand
  | read updates index multi =>
      exact Build.registered_read supports (made updates rfl)
        (given index (by simp [operands]))
  | select cond onTrue onFalse multi =>
      exact Build.registered_select (given cond (by simp [operands]))
        (given onTrue (by simp [operands])) (given onFalse (by simp [operands]))
  | patchSelect cond onTrue onFalse truePatch falsePatch =>
      exact Build.registered_patchSelect (given cond (by simp [operands]))
        (given onTrue (by simp [operands])) (given onFalse (by simp [operands]))
  | concat high low multi =>
      exact Build.registered_concat (given high (by simp [operands]))
        (given low (by simp [operands]))
  | extract source offset width multi =>
      exact Build.registered_extract (given source (by simp [operands]))
  | zext source width multi =>
      exact Build.registered_zext (given source (by simp [operands]))
  | sext source width multi =>
      exact Build.registered_sext (given source (by simp [operands]))
  | not source multi =>
      exact Build.registered_not (given source (by simp [operands]))
  | binary operator left right multi =>
      exact Build.registered_binary (given left (by simp [operands]))
        (given right (by simp [operands]))

end Construction

/-! ## Workshops -/

/-- A table, and the histories and expressions at hand. -/
structure Workshop where
  table : Table := {}
  histories : List Updates := []
  expressions : List Expr := []

namespace Workshop

/-- Build something in a workshop, and keep it if there was no fault. -/
def build
    {α : Type}
    (workshop : Workshop)
    (action : Build α)
    (keep : Workshop → α → Workshop) : Workshop :=
  match action workshop.table with
  | .ok result table => keep { workshop with table } result
  | .error _ table => { workshop with table }

/-- Declare an array. -/
def declare
    (workshop : Workshop)
    (name : String)
    (size : Int)
    (contents : Option (List Int))
    (domain range : Int) : Workshop :=
  workshop.build (Build.array name size contents domain range) fun workshop array =>
    { workshop with histories := .root array :: workshop.histories }

/-- Write on top of a history. -/
def write (workshop : Workshop) (older : Updates) (index value : Expr) : Workshop :=
  workshop.build (Build.write older index value) fun workshop updates =>
    { workshop with histories := updates :: workshop.histories }

/-- Call a constructor. -/
def construct (workshop : Workshop) (call : Construction) : Workshop :=
  workshop.build call.run fun workshop result =>
    { workshop with expressions := result :: workshop.expressions }

/-- One array, one write or one expression more, made of what is at hand. -/
inductive Step (workshop : Workshop) : Workshop → Prop where
  | declare
      (name : String)
      (size : Int)
      (contents : Option (List Int))
      (domain range : Int) :
      Step workshop (workshop.declare name size contents domain range)
  | write
      {older : Updates}
      {index value : Expr}
      (history : older ∈ workshop.histories)
      (indexAtHand : index ∈ workshop.expressions)
      (valueAtHand : value ∈ workshop.expressions) :
      Step workshop (workshop.write older index value)
  | construct
      {call : Construction}
      (operandsAtHand : ∀ operand ∈ call.operands, operand ∈ workshop.expressions)
      (history : ∀ updates ∈ call.history?, updates ∈ workshop.histories) :
      Step workshop (workshop.construct call)

/-- A workshop that is reached from the empty one. -/
def Reachable (workshop : Workshop) : Prop :=
  Relation.ReflTransGen Step {} workshop

/-- All that is at hand is registered. -/
structure Sound (workshop : Workshop) : Prop where
  supports : workshop.table.Supports workshop.histories
  registered : ∀ expression ∈ workshop.expressions,
    expression.Registered workshop.histories workshop.table

theorem sound_empty : Sound {} where
  supports := {
    sound := Table.sound_empty
    coherent := by simp
    array_lt := by simp
    newest_lt := by simp
    written := by simp }
  registered := by simp

/-- A new array differs from all that were there. -/
theorem supports_declare
    {table : Table}
    {histories : List Updates}
    {array : ArrayDecl}
    (supports : table.Supports histories)
    (new : array.id = table.next) :
    Table.Supports { table with next := table.next + 1 }
      (.root array :: histories) := by
  have apart (updates : Updates) (member : updates ∈ histories)
      (same : updates.array.id = array.id) : False := by
    have below := supports.array_lt updates member
    rw [same, new] at below
    exact Nat.lt_irrefl _ below
  have grown := supports.grow table.grows_next
  constructor
  · exact grown.sound
  · intro first isFirst second isSecond same
    simp only [Updates.same, Bool.and_eq_true, beq_iff_eq] at same
    rcases List.mem_cons.1 isFirst with rfl | oldFirst
    · rcases List.mem_cons.1 isSecond with rfl | oldSecond
      · rfl
      · exact (apart second oldSecond same.1.symm).elim
    · rcases List.mem_cons.1 isSecond with rfl | oldSecond
      · exact (apart first oldFirst same.1).elim
      · exact supports.coherent first oldFirst second oldSecond (by
          simpa [Updates.same] using same)
  · intro updates member
    rcases List.mem_cons.1 member with rfl | old
    · simp [Updates.array, new]
    · exact grown.array_lt updates old
  · intro updates member
    rcases List.mem_cons.1 member with rfl | old
    · simp [Updates.newest?]
    · exact grown.newest_lt updates old
  · intro updates member
    rcases List.mem_cons.1 member with rfl | old
    · exact Updates.throughout_root array
    · exact (grown.written updates old).mono fun _ known =>
        known.mono (Table.Grows.refl _) fun _ inside =>
          List.mem_cons_of_mem _ inside

/-- A new write differs from all that were there. -/
theorem supports_write
    {table : Table}
    {histories : List Updates}
    {older : Updates}
    {index value : Expr}
    (supports : table.Supports histories)
    (history : older ∈ histories)
    (indexRegistered : index.Registered histories table)
    (valueRegistered : value.Registered histories table) :
    Table.Supports { table with next := table.next + 1 }
      (.write table.next index value older :: histories) := by
  have apart (updates : Updates) (member : updates ∈ histories)
      (same : updates.newest? = some table.next) : False :=
    Nat.lt_irrefl _ (supports.newest_lt updates member table.next same)
  have grown := supports.grow table.grows_next
  have included : ∀ updates ∈ histories,
      updates ∈ Updates.write table.next index value older :: histories :=
    fun _ inside => List.mem_cons_of_mem _ inside
  constructor
  · exact grown.sound
  · intro first isFirst second isSecond same
    simp only [Updates.same, Bool.and_eq_true, beq_iff_eq] at same
    rcases List.mem_cons.1 isFirst with rfl | oldFirst
    · rcases List.mem_cons.1 isSecond with rfl | oldSecond
      · rfl
      · exact (apart second oldSecond same.2.symm).elim
    · rcases List.mem_cons.1 isSecond with rfl | oldSecond
      · exact (apart first oldFirst same.2).elim
      · exact supports.coherent first oldFirst second oldSecond (by
          simpa [Updates.same] using same)
  · intro updates member
    rcases List.mem_cons.1 member with rfl | old
    · exact grown.array_lt older history
    · exact grown.array_lt updates old
  · intro updates member id newest
    rcases List.mem_cons.1 member with rfl | old
    · cases newest
      exact Nat.lt_succ_self _
    · exact grown.newest_lt updates old id newest
  · intro updates member
    rcases List.mem_cons.1 member with rfl | old
    · rw [Updates.throughout_write]
      exact ⟨indexRegistered.extend table.grows_next included,
        valueRegistered.extend table.grows_next included,
        (grown.written older history).mono fun _ known =>
          known.mono (Table.Grows.refl _) included⟩
    · exact (grown.written updates old).mono fun _ known =>
        known.mono (Table.Grows.refl _) included

/-- A constructor call on what is at hand keeps a workshop sound. -/
theorem Sound.construct
    {workshop : Workshop}
    {call : Construction}
    (sound : workshop.Sound)
    (operandsAtHand : ∀ operand ∈ call.operands, operand ∈ workshop.expressions)
    (history : ∀ updates ∈ call.history?, updates ∈ workshop.histories) :
    (workshop.construct call).Sound := by
  have moves := call.stable.moves workshop.table
  unfold Moves at moves
  unfold Workshop.construct Workshop.build
  cases ran : call.run workshop.table with
  | error fault table =>
      rw [ran] at moves
      exact ⟨sound.supports.grow moves.1, fun expression member =>
        (sound.registered expression member).grow moves.1⟩
  | ok result table =>
      rw [ran] at moves
      refine ⟨sound.supports.grow moves.1, ?_⟩
      intro expression member
      rcases List.mem_cons.1 member with rfl | old
      · exact Construction.registered sound.supports
          (fun operand given => sound.registered operand (operandsAtHand operand given))
          history ran
      · exact (sound.registered expression old).grow moves.1

/-- The table has grown, and no history was lost. -/
structure Extends (before after : Workshop) : Prop where
  grows : before.table.Grows after.table
  included : ∀ updates ∈ before.histories, updates ∈ after.histories

/-- No step takes something away from a workshop. -/
theorem Step.extends
    {before after : Workshop}
    (step : Step before after) :
    before.Extends after := by
  cases step with
  | declare name size contents domain range =>
      exact ⟨Table.grows_next _, fun _ inside => List.mem_cons_of_mem _ inside⟩
  | write history indexAtHand valueAtHand =>
      exact ⟨Table.grows_next _, fun _ inside => List.mem_cons_of_mem _ inside⟩
  | @construct call operandsAtHand history =>
      have moves := call.stable.moves before.table
      unfold Moves at moves
      unfold Workshop.construct Workshop.build
      cases ran : call.run before.table with
      | error fault table =>
          rw [ran] at moves
          exact ⟨moves.1, fun _ inside => inside⟩
      | ok result table =>
          rw [ran] at moves
          exact ⟨moves.1, fun _ inside => inside⟩

/-- Every step keeps what is at hand registered. -/
theorem Step.sound
    {before after : Workshop}
    (step : Step before after)
    (sound : before.Sound) :
    after.Sound := by
  have kept (expression : Expr) (member : expression ∈ before.expressions) :=
    (sound.registered expression member).extend step.extends.grows step.extends.included
  cases step with
  | declare name size contents domain range =>
      exact ⟨supports_declare sound.supports rfl, kept⟩
  | write history indexAtHand valueAtHand =>
      exact ⟨supports_write sound.supports history
        (sound.registered _ indexAtHand) (sound.registered _ valueAtHand), kept⟩
  | construct operandsAtHand history =>
      exact sound.construct operandsAtHand history

/-- Every workshop that can be reached is sound. -/
theorem Reachable.sound
    {workshop : Workshop}
    (reached : workshop.Reachable) :
    workshop.Sound := by
  induction reached with
  | refl => exact sound_empty
  | tail _ step inductionHypothesis => exact step.sound inductionHypothesis

/-- Calls of which each finds its operands at hand when its turn comes. -/
def Admits : Workshop → List Construction → Prop
  | _, [] => True
  | workshop, call :: rest =>
      (∀ operand ∈ call.operands, operand ∈ workshop.expressions) ∧
        (∀ updates ∈ call.history?, updates ∈ workshop.histories) ∧
          (workshop.construct call).Admits rest

/-- Calls that are admitted one after the other lead to a workshop that can be reached. -/
theorem Reachable.foldl_construct
    {workshop : Workshop}
    {calls : List Construction}
    (reached : workshop.Reachable)
    (admits : workshop.Admits calls) :
    (calls.foldl construct workshop).Reachable := by
  induction calls generalizing workshop with
  | nil => exact reached
  | cons call rest inductionHypothesis =>
      obtain ⟨operandsAtHand, history, later⟩ := admits
      exact inductionHypothesis
        (Relation.ReflTransGen.tail reached (.construct operandsAtHand history)) later

end Workshop

end Diverge
