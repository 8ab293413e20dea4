import Diverge.Proofs.Vectors
import Diverge.Proofs.Expr.Values
import Diverge.Proofs.Expr.Workshop

/-!
# The bit vector of an expression

An expression of a width stands for a bit vector of that width.  `Expr.denote` is the
vector, from the vectors of the operands; it is undefined where a quotient or remainder
by zero is needed, and only there.  Of a choice only the branch taken is needed, and of a
history the writes from the newest to the first that matches.

The evaluator works on integers, which it cuts to the width of a node at the end.  On
well-typed expressions it computes the unsigned value of the vector
(`Expr.evaluate_eq_denote`), unless a word is so wide that its modulus cannot be made.
-/

namespace Diverge

open Stateful

/-! ## Denotations -/

mutual

/--
The vector of an expression under an assignment.  In a well-typed expression widths match,
and `setWidth` changes nothing but the zero extension, which is padded.
-/
def Expr.denote (assignment : Assignment) :
    (expression : Expr) → Option (BitVec expression.width.toNat)
  | .const tag value => some (BitVec.ofInt tag.width.toNat value)
  | .notOptimized tag source => do
      let vector ← source.denote assignment
      return vector.setWidth tag.width.toNat
  | .read tag updates index => do
      let position ← index.denote assignment
      let vector ← updates.denote assignment position.toNat
      return vector.setWidth tag.width.toNat
  | .select tag _ cond onTrue onFalse => do
      let guard ← cond.denote assignment
      if guard ≠ 0 then
        let vector ← onTrue.denote assignment
        return vector.setWidth tag.width.toNat
      else
        let vector ← onFalse.denote assignment
        return vector.setWidth tag.width.toNat
  | .concat tag high low => do
      let upper ← high.denote assignment
      let lower ← low.denote assignment
      return (upper ++ lower).setWidth tag.width.toNat
  | .extract tag offset source => do
      let vector ← source.denote assignment
      return vector.extractLsb' offset.toNat tag.width.toNat
  | .zext tag source => do
      let vector ← source.denote assignment
      return vector.setWidth tag.width.toNat
  | .sext tag source => do
      let vector ← source.denote assignment
      return vector.signExtend tag.width.toNat
  | .not tag source => do
      let vector ← source.denote assignment
      return (~~~vector).setWidth tag.width.toNat
  | .binary tag operator left right => do
      let first ← left.denote assignment
      let second ← right.denote assignment
      let vector ← operator.denote first (second.setWidth left.width.toNat)
      return vector.setWidth tag.width.toNat
  | .loose .. => none

/-- The vector at a position of a history: the newest write there, else the content, else zero. -/
def Updates.denote (assignment : Assignment) (position : Nat) :
    (updates : Updates) → Option (BitVec updates.array.range.toNat)
  | .root array =>
      some (BitVec.ofInt array.range.toNat ((array.values assignment).getD position 0))
  | .write _ index value older => do
      let written ← index.denote assignment
      if written.toNat = position then
        let vector ← value.denote assignment
        return vector.setWidth older.array.range.toNat
      else older.denote assignment position

end

/-- No extraction starts below the lowest bit. -/
def Expr.OffsetsNonneg (expression : Expr) : Prop :=
  expression.Throughout fun node => ∀ offset ∈ node.offset?, 0 ≤ offset

/-- Some part is so wide that its modulus may not be an integer that can be made. -/
def Expr.IsWide (expression : Expr) : Prop :=
  ∃ part ∈ expression.parts, Word.widest < part.width

/-! ## Computing vectors -/

/--
A value is that of a vector.  Without a value, there is no vector, or something was too
large, which takes something `wide`.
-/
def Computes
    {bits : Nat}
    (wide : Prop)
    (outcome : Except Fault (Option Int))
    (meaning : Option (BitVec bits)) : Prop :=
  match outcome with
  | .ok value => ∃ vector, meaning = some vector ∧ value = some (vector.toNat : Int)
  | .error fault => meaning = none ∨ fault.IsSize ∧ wide

section

variable {wide : Prop} {bits more : Nat}

/-- Integers that stand for a vector may be handed on to what computes with vectors. -/
theorem Computes.bind
    {outcome : Except Fault (Option Int)}
    {meaning : Option (BitVec bits)}
    {next : Option Int → Except Fault (Option Int)}
    {rest : BitVec bits → Option (BitVec more)}
    (computes : Computes wide outcome meaning)
    (later : ∀ vector, Computes wide (next (some (vector.toNat : Int))) (rest vector)) :
    Computes wide (outcome >>= next) (meaning >>= rest) := by
  cases outcome with
  | ok value =>
      obtain ⟨vector, rfl, rfl⟩ := computes
      exact later vector
  | error fault =>
      rcases computes with rfl | large
      · exact Or.inl rfl
      · exact Or.inr large

/-- A step on integers that comes before the value. -/
theorem Computes.after
    {computed : Except Fault Int}
    {after : Int → Prop}
    {next : Int → Except Fault (Option Int)}
    {meaning : Option (BitVec bits)}
    (affords : Affords wide computed after)
    (later : ∀ value, after value → Computes wide (next value) meaning) :
    Computes wide (computed >>= next) meaning := by
  cases computed with
  | ok value => exact later value affords
  | error fault => exact Or.inr affords

/-- A word that is computed from operands that have a value. -/
theorem Computes.of_affords
    {computed : Except Fault Int}
    {vector : BitVec bits}
    (affords : Affords wide computed fun word => word = vector.toNat) :
    Computes wide (do return some (← computed)) (some vector) :=
  Computes.after affords fun _ isWord => ⟨vector, rfl, congrArg some isWord⟩

/-- A choice between integers stands for the same choice between vectors. -/
theorem Computes.ite
    {holds holdsVector : Prop}
    [Decidable holds]
    [Decidable holdsVector]
    {first second : Except Fault (Option Int)}
    {onTrue onFalse : Option (BitVec bits)}
    (same : holds ↔ holdsVector)
    (computesTrue : Computes wide first onTrue)
    (computesFalse : Computes wide second onFalse) :
    Computes wide (if holds then first else second)
      (if holdsVector then onTrue else onFalse) := by
  by_cases taken : holdsVector
  · rw [if_pos taken, if_pos (same.2 taken)]
    exact computesTrue
  · rw [if_neg taken, if_neg (mt same.1 taken)]
    exact computesFalse

/-- A vector may be padded. -/
theorem Computes.setWidth
    {outcome : Except Fault (Option Int)}
    {meaning : Option (BitVec bits)}
    (computes : Computes wide outcome meaning)
    (padded : bits ≤ more) :
    Computes wide outcome (do return (← meaning).setWidth more) := by
  cases outcome with
  | ok value =>
      obtain ⟨vector, rfl, rfl⟩ := computes
      refine ⟨vector.setWidth more, rfl, ?_⟩
      rw [BitVec.toNat_setWidth_of_le padded]
  | error fault =>
      rcases computes with rfl | large
      · exact Or.inl rfl
      · exact Or.inr large

end

/-- What the vector of a node needs, if its operands have theirs. -/
structure Expr.Ready (assignment : Assignment) (wide : Prop) (node : Expr) : Prop where
  sized : node.Sized assignment
  offset_nonneg : ∀ offset ∈ node.offset?, 0 ≤ offset
  enough : Word.widest < node.width → wide

/-! ## Nodes with operands that have a vector -/

section

variable {wide : Prop} {bits : Nat} {width : Int}

/-- A guard is taken as true if its vector is not zero. -/
theorem Word.isTrue_toNat
    (vector : BitVec bits) :
    Word.isTrue (some (vector.toNat : Int)) = true ↔ vector ≠ 0 := by
  rw [ne_eq, ← Word.toNat_eq_zero]
  exact decide_eq_true_iff

/-- Shifting to the right and cutting off is extraction. -/
theorem Word.computes_extract
    (nonneg : 0 ≤ width)
    (enough : Word.widest < width → wide)
    {offset : Int}
    (offsetNonneg : 0 ≤ offset)
    (vector : BitVec bits) :
    Computes wide
      (do
        let shifted ← Word.shiftRight? (some (vector.toNat : Int)) (some offset)
        return some (← Word.truncate shifted width))
      (some (vector.extractLsb' offset.toNat width.toNat)) := by
  have shifted : Word.shiftRight? (some (vector.toNat : Int)) (some offset) =
      .ok ((vector.toNat : Int) >>> offset.toNat) :=
    if_neg (by omega)
  rw [shifted]
  refine Computes.of_affords ((Word.affords_truncate nonneg enough _).mono fun word cut => ?_)
  rw [cut, ← Int.natCast_shiftRight, BitVec.ofInt_natCast]
  rfl

/-- The signed reading, cut to a width, is sign extension, also to a smaller width. -/
theorem Word.computes_signExtend
    {source : Int}
    (sourcePos : 0 < source)
    (sourceEnough : Word.widest < source → wide)
    (nonneg : 0 ≤ width)
    (enough : Word.widest < width → wide)
    (vector : BitVec source.toNat) :
    Computes wide
      (do
        let extended ← Word.signed? (some (vector.toNat : Int)) source
        return some (← Word.truncate extended width))
      (some (vector.signExtend width.toNat)) := by
  refine Computes.after (Word.affords_signed sourcePos sourceEnough vector) ?_
  rintro _ rfl
  exact Computes.of_affords (Word.affords_truncate nonneg enough vector.toInt)

/-- The complement of an integer, cut off, is the complement of its vector. -/
theorem Word.computes_not
    {source : Int}
    (isSource : width = source)
    (nonneg : 0 ≤ width)
    (enough : Word.widest < width → wide)
    (vector : BitVec source.toNat) :
    Computes wide
      (do
        let complement ← Word.bitNot? (some (vector.toNat : Int))
        return some (← Word.truncate complement width))
      (some ((~~~vector).setWidth width.toNat)) := by
  subst isSource
  rw [BitVec.setWidth_eq]
  refine Computes.of_affords ((Word.affords_truncate nonneg enough _).mono fun word cut => ?_)
  rw [cut, Word.bitNot, sub_eq_add_neg, BitVec.ofInt_add, BitVec.ofInt_neg, Word.ofInt_toNat,
    BitVec.not_eq_neg_add, BitVec.sub_eq_add_neg, BitVec.ofInt_neg]
  rfl

/-- A shifted upper part with a lower part below it is concatenation. -/
theorem Word.computes_join
    {upper : Int}
    (upperPos : 0 < upper)
    (lowerNonneg : 0 ≤ width)
    {total : Int}
    (isTotal : total = upper + width)
    (enough : Word.widest < total → wide)
    (high : BitVec upper.toNat)
    (low : BitVec width.toNat) :
    Computes wide
      (do return some (← Word.join (some (high.toNat : Int)) (some (low.toNat : Int)) width))
      (some ((high ++ low).setWidth total.toNat)) := by
  subst isTotal
  refine Computes.of_affords
    ((Word.affords_join lowerNonneg upperPos enough high low).mono fun word joined => ?_)
  rw [joined, BitVec.toNat_setWidth_of_le (by omega)]

theorem BinaryOp.widthOf_toNat
    (operator : BinaryOp)
    (left : Expr) :
    operator.widthOf left.width.toNat = (Build.resultWidth operator left).toNat := by
  unfold BinaryOp.widthOf Build.resultWidth
  cases operator.isComparison <;> rfl

/-- An operator on two words, cut to the width of its result. -/
theorem BinaryOp.computes_apply
    (operator : BinaryOp)
    (positive : 0 < width)
    (enough : Word.widest < width → wide)
    {result : Int}
    (resultNonneg : 0 ≤ result)
    (resultEnough : Word.widest < result → wide)
    (isResult : operator.widthOf width.toNat = result.toNat)
    {undefined : Except Fault (Option Int)}
    (fails : ∀ value, undefined ≠ .ok value)
    (left right : BitVec width.toNat) :
    Computes wide
      (do
        match ← operator.apply left.toNat right.toNat width with
        | some value => return some (← Word.truncate value result)
        | none => undefined)
      (do return (← operator.denote left right).setWidth result.toNat) := by
  have applied := operator.affords_apply positive enough left right
  cases computed : operator.apply left.toNat right.toNat width with
  | error fault =>
      rw [computed] at applied
      exact Or.inr applied
  | ok outcome =>
      rw [computed] at applied
      cases outcome with
      | none =>
          have nothing : operator.denote left right = none := applied.symm
          rw [nothing]
          cases ended : undefined with
          | ok value => exact (fails value ended).elim
          | error fault => exact Or.inl rfl
      | some value =>
          have meaning : operator.denote left right =
              some (BitVec.ofInt (operator.widthOf width.toNat) value) := applied.symm
          rw [meaning, isResult]
          refine Computes.of_affords
            ((Word.affords_truncate resultNonneg resultEnough value).mono fun word cut => ?_)
          rw [cut, BitVec.setWidth_eq]

end

/-! ## Expressions -/

section

variable {assignment : Assignment} {wide : Prop}

theorem valueAt_natCast
    (values : List Int)
    (position : Nat)
    (fault : Fault) :
    valueAt values (some (position : Int)) fault = .ok (values.getD position 0) := by
  unfold valueAt
  by_cases inside : position < values.length
  · have isThere := List.getElem?_eq_getElem inside
    simp only [Int.ofNat_lt, inside, if_true]
    rw [Sequence.fetch_of_getElem? isThere, List.getD_eq_getElem?_getD, isThere]
    rfl
  · have missing := List.getElem?_eq_none (Nat.le_of_not_lt inside)
    simp only [Int.ofNat_lt, inside, if_false]
    rw [List.getD_eq_getElem?_getD, missing]
    rfl

/-- The content of an array at a position, or zero. -/
theorem ArrayDecl.valueAt_natCast
    (array : ArrayDecl)
    (position : Nat) :
    array.valueAt assignment (some (position : Int)) =
      .ok ((array.values assignment).getD position 0) := by
  unfold ArrayDecl.valueAt ArrayDecl.values
  cases array.contents with
  | some values => exact Diverge.valueAt_natCast values position _
  | none => exact Diverge.valueAt_natCast _ position _

/-- A word is the value of its vector. -/
theorem Word.toNat_ofInt_of_range
    {bits : Nat}
    {word : Int}
    (nonneg : 0 ≤ word)
    (bound : word < 2 ^ bits) :
    ((BitVec.ofInt bits word).toNat : Int) = word := by
  rw [BitVec.toNat_ofInt, Int.emod_eq_of_lt nonneg (by exact_mod_cast bound),
    Int.toNat_of_nonneg nonneg]

/--
What an array that fits holds at a position is a vector of its range; past its end it is zero.
-/
theorem ArrayDecl.computes_valueAt
    {array : ArrayDecl}
    (fits : array.Fits assignment)
    (position : Nat) :
    Computes wide (do return some (← array.valueAt assignment (some (position : Int))))
      ((Updates.root array).denote assignment position) := by
  have found : array.valueAt assignment (some (position : Int)) = _ :=
    array.valueAt_natCast position
  obtain ⟨word, isWord, nonneg, bound⟩ := array.isWord_valueAt fits found
  cases isWord
  rw [found, Updates.denote]
  exact ⟨_, rfl, congrArg some (Word.toNat_ofInt_of_range nonneg bound).symm⟩

mutual

/-- The evaluator computes the unsigned value of the vector. -/
theorem Expr.computes_evaluate :
    (expression : Expr) → expression.Throughout (Expr.Ready assignment wide) →
      Computes wide (expression.evaluate assignment) (expression.denote assignment)
  | .const tag value, ready => by
      obtain ⟨_, nonneg, bound⟩ : (Expr.const tag value).Measured := ready.self.sized.measured
      rw [Expr.evaluate_const, Expr.denote]
      exact ⟨_, rfl, congrArg some (Word.toNat_ofInt_of_range nonneg bound).symm⟩
  | .loose .., ready => ready.self.sized.measured.elim
  | .notOptimized tag source, ready => by
      have width : tag.width = source.width := ready.self.sized.measured
      rw [Expr.evaluate_notOptimized, Expr.denote]
      exact (source.computes_evaluate (ready.kid List.mem_cons_self)).setWidth
        (Int.toNat_le_toNat width.ge)
  | .zext tag source, ready => by
      have padded : source.width ≤ tag.width := ready.self.sized.matched
      rw [Expr.evaluate_zext, Expr.denote]
      exact (source.computes_evaluate (ready.kid List.mem_cons_self)).setWidth
        (Int.toNat_le_toNat padded)
  | .extract tag offset source, ready => by
      rw [Expr.evaluate_extract, Expr.denote]
      refine (source.computes_evaluate (ready.kid List.mem_cons_self)).bind fun vector => ?_
      exact Word.computes_extract ready.self.sized.width_pos.le ready.self.enough
        (ready.self.offset_nonneg offset rfl) vector
  | .sext tag source, ready => by
      have readySource : source.Throughout (Expr.Ready assignment wide) :=
        ready.kid List.mem_cons_self
      rw [Expr.evaluate_sext, Expr.denote]
      refine (source.computes_evaluate readySource).bind fun vector => ?_
      exact Word.computes_signExtend readySource.self.sized.width_pos readySource.self.enough
        ready.self.sized.width_pos.le ready.self.enough vector
  | .not tag source, ready => by
      rw [Expr.evaluate_not, Expr.denote]
      refine (source.computes_evaluate (ready.kid List.mem_cons_self)).bind fun vector => ?_
      exact Word.computes_not ready.self.sized.measured ready.self.sized.width_pos.le
        ready.self.enough vector
  | .binary tag operator left right, ready => by
      have inLeft : left ∈ (Expr.binary tag operator left right).kids := by simp [Expr.kids]
      have inRight : right ∈ (Expr.binary tag operator left right).kids := by simp [Expr.kids]
      have width : tag.width = Build.resultWidth operator left := ready.self.sized.measured
      have operands : left.width = right.width := ready.self.sized.matched
      rw [Expr.evaluate_binary, Expr.denote]
      refine (left.computes_evaluate (ready.kid inLeft)).bind fun first => ?_
      refine (right.computes_evaluate (ready.kid inRight)).bind fun second => ?_
      have same : (second.setWidth left.width.toNat).toNat = second.toNat :=
        BitVec.toNat_setWidth_of_le (Int.toNat_le_toNat operands.ge)
      rw [← same]
      refine operator.computes_apply (ready.kid inLeft).self.sized.width_pos
        (ready.kid inLeft).self.enough ready.self.sized.width_pos.le ready.self.enough ?_ ?_ _ _
      · exact (operator.widthOf_toNat left).trans (congrArg Int.toNat width.symm)
      · intro value ended
        obtain ⟨text, _, raised⟩ := except_bind_eq_ok.1 ended
        cases raised
  | .select tag patches cond onTrue onFalse, ready => by
      have inCond : cond ∈ (Expr.select tag patches cond onTrue onFalse).kids := by
        simp [Expr.kids]
      have inTrue : onTrue ∈ (Expr.select tag patches cond onTrue onFalse).kids := by
        simp [Expr.kids]
      have inFalse : onFalse ∈ (Expr.select tag patches cond onTrue onFalse).kids := by
        simp [Expr.kids]
      have width : tag.width = onTrue.width := ready.self.sized.measured
      have branches : onTrue.width = onFalse.width := ready.self.sized.matched
      rw [Expr.evaluate_select, Expr.denote]
      refine (cond.computes_evaluate (ready.kid inCond)).bind fun guard => ?_
      refine Computes.ite (Word.isTrue_toNat guard) ?_ ?_
      · exact (onTrue.computes_evaluate (ready.kid inTrue)).setWidth
          (Int.toNat_le_toNat width.ge)
      · exact (onFalse.computes_evaluate (ready.kid inFalse)).setWidth
          (Int.toNat_le_toNat (width.trans branches).ge)
  | .concat tag high low, ready => by
      have inHigh : high ∈ (Expr.concat tag high low).kids := by simp [Expr.kids]
      have inLow : low ∈ (Expr.concat tag high low).kids := by simp [Expr.kids]
      rw [Expr.evaluate_concat, Expr.denote]
      refine (high.computes_evaluate (ready.kid inHigh)).bind fun upper => ?_
      refine (low.computes_evaluate (ready.kid inLow)).bind fun lower => ?_
      exact Word.computes_join (ready.kid inHigh).self.sized.width_pos
        (ready.kid inLow).self.sized.width_pos.le ready.self.sized.measured ready.self.enough
        upper lower
  | .read tag updates index, ready => by
      have width : tag.width = updates.array.range := ready.self.sized.measured
      have parts := (Expr.throughout_read tag updates index).1 ready
      rw [Expr.evaluate_read, Expr.denote]
      refine (index.computes_evaluate parts.2.1).bind fun position => ?_
      exact (updates.computes_lookup parts.2.2 ready.self.sized.matched
        (ready.self.sized.fits updates rfl) position.toNat).setWidth
          (Int.toNat_le_toNat width.ge)

/-- A lookup in a history finds the latest write to a position, else what the array holds there. -/
theorem Updates.computes_lookup :
    (updates : Updates) → updates.Throughout (Expr.Ready assignment wide) →
      updates.Matched → updates.array.Fits assignment → (position : Nat) →
        Computes wide (updates.lookup assignment (some (position : Int)))
          (updates.denote assignment position)
  | .root array, _, _, fits, position => by
      rw [Updates.lookup_root]
      exact array.computes_valueAt fits position
  | .write id index value older, ready, matched, fits, position => by
      rw [Updates.throughout_write] at ready
      have width : value.width = older.array.range := matched.1
      rw [Updates.lookup_write, Updates.denote]
      refine (index.computes_evaluate ready.1).bind fun written => ?_
      refine Computes.ite (by simp) ?_ ?_
      · exact (value.computes_evaluate ready.2.1).setWidth (Int.toNat_le_toNat width.le)
      · exact older.computes_lookup ready.2.2 matched.2 fits position

end

end

theorem Expr.Registered.measured
    {histories : List Updates}
    {table : Table}
    {expression : Expr}
    (registered : expression.Registered histories table) :
    expression.Throughout Expr.Measured :=
  Throughout.mono registered fun _ known => known.proper.measured

/--
A well-typed expression is ready for evaluation; only its wide parts may need too large
integers.
-/
theorem Expr.ready_of_wellTyped
    {expression : Expr}
    {assignment : Assignment}
    (measured : expression.Throughout Expr.Measured)
    (typed : expression.WellTyped)
    (offsets : expression.OffsetsNonneg)
    (fits : expression.ArraysFit assignment) :
    expression.Throughout (Expr.Ready assignment expression.IsWide) :=
  fun part member =>
    { sized := {
        measured := measured part member
        matched := (typed part member).2
        fits := fits part member
        width_pos := (typed part member).1 }
      offset_nonneg := offsets part member
      enough := fun wide => ⟨part, member, wide⟩ }

/--
The evaluator computes the unsigned value of the vector that an expression denotes, unless
a modulus is needed that cannot be made.  It never gives a value where there is no vector.
-/
theorem Expr.evaluate_eq_denote
    {workshop : Workshop}
    (reached : workshop.Reachable)
    {expression : Expr}
    (built : expression ∈ workshop.expressions)
    (typed : expression.WellTyped)
    (offsets : expression.OffsetsNonneg)
    {assignment : Assignment}
    (fits : expression.ArraysFit assignment) :
    match expression.denote assignment with
    | some vector =>
        expression.evaluate assignment = .ok (some (vector.toNat : Int)) ∨
          expression.IsWide ∧ ∃ cause, expression.evaluate assignment = .error (.count cause)
    | none => ∀ value, expression.evaluate assignment ≠ .ok value := by
  have measured := (reached.sound.registered expression built).measured
  have computes := expression.computes_evaluate
    (Expr.ready_of_wellTyped measured typed offsets fits)
  cases meaning : expression.denote assignment with
  | none =>
      intro value evaluated
      rw [evaluated] at computes
      obtain ⟨vector, isVector, _⟩ := computes
      rw [meaning] at isVector
      cases isVector
  | some vector =>
      rw [meaning] at computes
      cases evaluated : expression.evaluate assignment with
      | ok value =>
          rw [evaluated] at computes
          obtain ⟨other, same, isValue⟩ := computes
          cases same
          exact Or.inl (congrArg Except.ok isValue)
      | error fault =>
          rw [evaluated] at computes
          rcases computes with nothing | ⟨⟨cause, rfl⟩, wide⟩
          · cases nothing
          · exact Or.inr ⟨wide, cause, rfl⟩

namespace LoneByte

def array : ArrayDecl :=
  { id := 0, name := "a", size := 1, contents := none, domain := 32, range := 8 }

def index : Expr := .const ⟨1, 32, false⟩ 0

def input : Expr := .read ⟨2, 8, false⟩ (.root array) index

def minusOne : Expr := .const ⟨3, 8, false⟩ 255

def quotient : Expr := .binary ⟨4, 8, false⟩ .sdiv input minusOne

/-- A word of `2 ^ 70` bits. -/
def extension : Expr := .sext ⟨5, 1180591620717411303424, false⟩ input

def workshop : Workshop :=
  [.constant 0 32, .read (.root array) index false, .constant 255 8,
    .binary .sdiv input minusOne false, .sext input 1180591620717411303424 false].foldl
      Workshop.construct (Workshop.declare {} "a" 1 none 32 8)

theorem expressions_eq :
    workshop.expressions = [extension, quotient, minusOne, input, index] := rfl

theorem reachable : workshop.Reachable := by
  refine Workshop.Reachable.foldl_construct
    (Relation.ReflTransGen.single (.declare "a" 1 none 32 8)) ?_
  refine ⟨?_, ?_, ?_, ?_, ?_, ?_, ?_, ?_, ?_, ?_, trivial⟩
  all_goals simp [Construction.operands, Construction.history?]
  · exact .head _
  · exact .head _
  · exact ⟨.tail _ (.head _), .head _⟩
  · exact .tail _ (.tail _ (.head _))

def assigned (byte : UInt8) : Assignment := fun _ => [byte]

theorem fits
    (byte : UInt8) :
    array.Fits (assigned byte) := by
  have bound : (byte.toNat : Int) < 256 := by exact_mod_cast byte.toNat_lt
  simp [array, assigned, ArrayDecl.Fits, ArrayDecl.values, bound]

end LoneByte

open LoneByte in
/-- The least byte divided by minus one is the least byte again. -/
theorem Expr.evaluate_eq_denote_quotient :
    quotient.denote (assigned 128) = some 128#8 ∧
      quotient.evaluate (assigned 128) = .ok (some 128) := by
  have typed : quotient.WellTyped := by
    simp [quotient, input, minusOne, index, Expr.WellTyped, Expr.Matched, Updates.Matched,
      Expr.width, Expr.tag]
  have offsets : quotient.OffsetsNonneg := by
    simp [quotient, input, minusOne, index, Expr.OffsetsNonneg, Expr.offset?]
  have arraysFit : quotient.ArraysFit (assigned 128) := by
    simp [quotient, input, minusOne, index, Expr.ArraysFit, Expr.updates?, Updates.array,
      fits]
  have narrow : ¬ quotient.IsWide := by
    simp [quotient, input, minusOne, index, Expr.IsWide, Expr.parts, Updates.parts, Expr.width,
      Expr.tag, Word.widest]
  have built : quotient ∈ workshop.expressions := by simp [expressions_eq]
  have meaning : quotient.denote (assigned 128) = some 128#8 := rfl
  refine ⟨meaning, ?_⟩
  have evaluated := Expr.evaluate_eq_denote reachable built typed offsets arraysFit
  rw [meaning] at evaluated
  rcases evaluated with same | ⟨wide, _⟩
  · exact same
  · exact (narrow wide).elim

open LoneByte in
/-- The modulus of a very wide word cannot be made, not even for a zero. -/
theorem Expr.evaluate_extension_fails :
    workshop.Reachable ∧ extension ∈ workshop.expressions ∧ extension.WellTyped ∧
      extension.OffsetsNonneg ∧ extension.ArraysFit (assigned 0) ∧
        (extension.denote (assigned 0)).isSome = true ∧
          extension.evaluate (assigned 0) = .error (.count .tooWide) := by
  refine ⟨reachable, by simp [expressions_eq], ?_, ?_, ?_, rfl, rfl⟩
  · simp [extension, input, index, Expr.WellTyped, Expr.Matched, Updates.Matched,
      Expr.width, Expr.tag]
  · simp [extension, input, index, Expr.OffsetsNonneg, Expr.offset?]
  · simp [extension, input, index, Expr.ArraysFit, Expr.updates?, Updates.array, fits]

end Diverge
