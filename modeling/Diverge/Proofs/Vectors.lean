import Mathlib.Tactic.Ring
import Diverge.Proofs.Computation
import Diverge.Proofs.Words

/-!
# Words as bit vectors

The words of a width are the unsigned values of bit vectors of that width.  Cutting an
integer to a width is reading it as a vector, the signed reading is that of the vector,
and each operator computes an integer which, read as a vector of its width, is what the
operator means on vectors (`BinaryOp.affords_apply`).

Some of the integers on the way may be too large to be made.  `Affords` says that an
outcome is as it should be unless that happens, and that it happens to wide words only:
below `widest` bits all integers can be made.
-/

namespace Diverge

open Stateful

/-! ## Integers that cannot be made -/

/-- Something was asked for that is too large. -/
def Fault.IsSize (fault : Fault) : Prop :=
  ∃ cause, fault = .count cause

/--
Words of up to so many bits need no integer that cannot be made.  The bound follows from the
memory that is assumed.
-/
def Word.widest : Int := 0x2000000000

/--
The outcome is a result that satisfies `after`, or something was too large for it,
which takes something `wide`.
-/
def Affords {α : Type} (wide : Prop) (outcome : Except Fault α) (after : α → Prop) : Prop :=
  match outcome with
  | .ok result => after result
  | .error fault => fault.IsSize ∧ wide

section

variable {α β : Type} {wide : Prop}

theorem Affords.of_ok
    {outcome : Except Fault α}
    {after : α → Prop}
    (affords : Affords wide outcome after)
    {result : α}
    (ended : outcome = .ok result) :
    after result := by
  rw [ended] at affords
  exact affords

/-- A result is what the outcome is. -/
theorem Affords.self
    {outcome : Except Fault α}
    {after : α → Prop}
    (affords : Affords wide outcome after) :
    Affords wide outcome fun result => outcome = .ok result := by
  cases outcome with
  | ok result => rfl
  | error fault => exact affords

theorem Affords.mono
    {outcome : Except Fault α}
    {after weaker : α → Prop}
    (affords : Affords wide outcome after)
    (implies : ∀ result, after result → weaker result) :
    Affords wide outcome weaker := by
  cases outcome with
  | ok result => exact implies result affords
  | error fault => exact affords

/-- The rule of sequence: an integer that cannot be made ends the sequence. -/
theorem Affords.bind
    {outcome : Except Fault α}
    {next : α → Except Fault β}
    {after : β → Prop}
    (affords : Affords wide outcome fun value => Affords wide (next value) after) :
    Affords wide (outcome >>= next) after := by
  cases outcome with
  | ok value => exact affords
  | error fault => exact affords

end

namespace Word

variable {wide : Prop} {width : Int}

/-- A shift can be made unless its result is too wide. -/
theorem affords_checkShift
    {value amount : Int}
    (nonneg : 0 ≤ amount)
    (enough : 2 * widest < value.natAbs.log2 + amount → wide) :
    Affords wide (checkShift value amount) fun _ => True := by
  by_cases fits : value.natAbs.log2 + amount ≤ 2 * widest
  · rw [checkShift_eq_ok nonneg fits]
    trivial
  · have refused : checkShift value amount =
        (ByteCount.checkShift value amount.toNat).mapError .count :=
      if_neg (by omega)
    rw [refused]
    cases ByteCount.checkShift value amount.toNat with
    | ok _ => trivial
    | error cause => exact ⟨⟨cause, rfl⟩, enough (by omega)⟩

/-- The modulus of a width can be made unless the width is too large. -/
theorem affords_modulus
    (nonneg : 0 ≤ width)
    (enough : widest < width → wide) :
    Affords wide (checkShift 1 width) fun _ => True := by
  refine affords_checkShift nonneg fun large => enough ?_
  have noBits : (1 : Int).natAbs.log2 = 0 := rfl
  rw [noBits] at large
  unfold widest at large ⊢
  omega

/-- An integer is cut to a width by reading it as a vector. -/
theorem affords_truncate
    (nonneg : 0 ≤ width)
    (enough : widest < width → wide)
    (value : Int) :
    Affords wide (truncate value width) fun word =>
      word = (BitVec.ofInt width.toNat value).toNat := by
  cases possible : checkShift 1 width with
  | error fault =>
      have refused := affords_modulus nonneg enough
      rw [possible] at refused
      unfold truncate
      rw [possible]
      exact refused
  | ok _ =>
      rw [truncate_eq possible]
      show value % 2 ^ width.toNat = _
      have modulus : (0 : Int) < 2 ^ width.toNat := by positivity
      rw [BitVec.toNat_ofInt, Int.toNat_of_nonneg]
      · push_cast
        rfl
      · push_cast
        exact Int.emod_nonneg value modulus.ne'

/-- The signed reading of a word is that of its vector. -/
theorem affords_signed
    (positive : 0 < width)
    (enough : widest < width → wide)
    (vector : BitVec width.toNat) :
    Affords wide (signed vector.toNat width) fun value => value = vector.toInt := by
  obtain ⟨bits, rfl⟩ := Int.eq_ofNat_of_zero_le positive.le
  change BitVec bits at vector
  have below : (↑bits - 1 : Int).toNat = bits - 1 := by omega
  have top : (vector.toNat : Int) >>> (↑bits - 1 : Int).toNat % 2 = 1 ↔ vector.msb = true := by
    have bound := vector.isLt
    have double : 2 ^ bits = 2 * 2 ^ (bits - 1) := by
      rw [← pow_succ', Nat.sub_add_cancel (by omega)]
    have small : vector.toNat / 2 ^ (bits - 1) < 2 :=
      Nat.div_lt_of_lt_mul (by rw [Nat.mul_comm, ← double]; exact bound)
    have reaches : 2 ^ (bits - 1) ≤ vector.toNat ↔ 1 ≤ vector.toNat / 2 ^ (bits - 1) :=
      (Nat.one_le_div_iff (by positivity)).symm
    rw [below, BitVec.msb_eq_toNat, decide_eq_true_iff, ge_iff_le, reaches,
      ← Int.natCast_shiftRight, Nat.shiftRight_eq_div_pow]
    generalize vector.toNat / 2 ^ (bits - 1) = quotient at small
    omega
  unfold signed
  rw [if_neg (by omega), BitVec.toInt_eq_msb_cond]
  by_cases negative : vector.msb = true
  · rw [if_pos (top.2 negative), if_pos negative]
    refine Affords.bind ((affords_modulus positive.le enough).mono fun _ _ => ?_)
    show (vector.toNat : Int) - (modulus bits : Nat) = _
    rw [modulus_eq]
    rfl
  · rw [if_neg (mt top.1 negative), if_neg negative]
    rfl

/-- A shift to the left multiplies by a power of two. -/
theorem affords_shiftLeft
    {value amount : Nat}
    (enough : 2 * widest < value.log2 + amount → wide) :
    Affords wide (shiftLeft value amount) fun shifted =>
      shifted = (value * 2 ^ amount : Nat) := by
  have nonneg : (0 : Int) ≤ amount := Int.natCast_nonneg amount
  cases possible : checkShift value amount with
  | error fault =>
      have refused : Affords wide (checkShift value amount) fun _ => True :=
        affords_checkShift nonneg fun large => enough (by rwa [Int.natAbs_natCast] at large)
      rw [possible] at refused
      unfold shiftLeft
      rw [possible]
      exact refused
  | ok _ =>
      rw [shiftLeft_eq possible]
      show (value : Int) * 2 ^ amount = _
      push_cast
      rfl

theorem log2_toNat_lt
    {bits : Nat}
    (positive : 0 < bits)
    (vector : BitVec bits) :
    vector.toNat.log2 < bits := by
  rcases Nat.eq_zero_or_pos vector.toNat with isZero | isPos
  · rw [isZero]
    exact positive
  · exact (Nat.log2_lt isPos.ne').2 vector.isLt

/-- A word on top of another is the vector of both. -/
theorem affords_join
    {upper : Int}
    (nonneg : 0 ≤ width)
    (upperPos : 0 < upper)
    (enough : widest < upper + width → wide)
    (high : BitVec upper.toNat)
    (low : BitVec width.toNat) :
    Affords wide (join (some (high.toNat : Int)) (some (low.toNat : Int)) width) fun word =>
      word = (high ++ low).toNat := by
  obtain ⟨bits, rfl⟩ := Int.eq_ofNat_of_zero_le nonneg
  change BitVec bits at low
  have size := log2_toNat_lt (by omega) high
  have shifted : Affords wide (shiftLeft high.toNat bits) fun value =>
      value = (high.toNat * 2 ^ bits : Nat) := by
    refine affords_shiftLeft fun large => enough ?_
    unfold widest at large ⊢
    omega
  change Affords wide
    (shiftLeft high.toNat bits >>= fun value => pure (bitOr value low.toNat)) _
  refine Affords.bind (shifted.mono fun value isShifted => ?_)
  subst isShifted
  show bitOr (Int.ofNat _) (Int.ofNat _) = _
  rw [BitVec.toNat_append, Nat.shiftLeft_eq]
  rfl

end Word

/-! ## Words that are cut again -/

/-- Cutting a word to its own width leaves it as it is. -/
theorem Word.eq_of_truncate
    {value width word : Int}
    (cut : Word.truncate value width = .ok word)
    (nonneg : 0 ≤ value)
    (bound : value < 2 ^ width.toNat) :
    word = value := by
  rw [(Word.truncate_eq_ok cut).2]
  exact Int.emod_eq_of_lt nonneg bound

/-- The complement of a complement, each cut to the width, is the word. -/
theorem Word.eq_of_truncate_bitNot
    {value width first second : Int}
    (nonneg : 0 ≤ value)
    (bound : value < 2 ^ width.toNat)
    (cut : Word.truncate (Word.bitNot value) width = .ok first)
    (cutAgain : Word.truncate (Word.bitNot first) width = .ok second) :
    second = value := by
  have complement : first = 2 ^ width.toNat - 1 - value := by
    rw [(Word.truncate_eq_ok cut).2, Word.bitNot]
    rw [← Int.add_emod_right, Int.emod_eq_of_lt (by omega) (by omega)]
    omega
  rw [(Word.truncate_eq_ok cutAgain).2, Word.bitNot, complement,
    ← Int.add_emod_right, Int.emod_eq_of_lt (by omega) (by omega)]
  omega

/-- The low bits of a word do not depend on how its sign is read. -/
theorem Word.truncate_of_signed
    {value source width extended : Int}
    (narrower : width ≤ source)
    (isSigned : Word.signed value source = .ok extended) :
    Word.truncate extended width = Word.truncate value width := by
  have shape : extended = value ∨ extended = value - 2 ^ source.toNat := by
    unfold Word.signed at isSigned
    split at isSigned
    · cases isSigned
    split at isSigned
    · obtain ⟨_, _, ended⟩ := except_bind_eq_ok.1 isSigned
      cases ended
      rw [Word.modulus_cast]
      exact Or.inr rfl
    · cases isSigned
      exact Or.inl rfl
  rcases shape with rfl | rfl
  · rfl
  cases possible : Word.checkShift 1 width with
  | error fault =>
      unfold Word.truncate
      rw [possible]
      rfl
  | ok _ =>
      rw [Word.truncate_eq possible, Word.truncate_eq possible]
      have divides : (2 : Int) ^ width.toNat ∣ 2 ^ source.toNat :=
        pow_dvd_pow 2 (Int.toNat_le_toNat narrower)
      exact congrArg Except.ok (Int.emod_eq_emod_iff_emod_sub_eq_zero.2
        (Int.emod_eq_zero_of_dvd (by simpa using divides)))

theorem Word.truncate?_some
    (value width : Int) :
    Word.truncate? (some value) width = Word.truncate value width := by
  unfold Word.truncate? Word.truncate
  cases Word.checkShift 1 width with
  | ok _ => rfl
  | error fault => rfl

/-! ## Operators -/

/-- The width of what an operator gives on words of a width. -/
def BinaryOp.widthOf (operator : BinaryOp) (width : Nat) : Nat :=
  bif operator.isComparison then 1 else width

/--
What an operator means on vectors.  Division and remainder by zero mean nothing; a shift
by the width or more leaves no bit, or copies of the sign.
-/
def BinaryOp.denote {width : Nat} :
    (operator : BinaryOp) → BitVec width → BitVec width →
      Option (BitVec (operator.widthOf width))
  | .add, left, right => some (left + right)
  | .sub, left, right => some (left - right)
  | .mul, left, right => some (left * right)
  | .udiv, left, right => if right = 0 then none else some (left / right)
  | .urem, left, right => if right = 0 then none else some (left % right)
  | .sdiv, left, right => if right = 0 then none else some (left.sdiv right)
  | .srem, left, right => if right = 0 then none else some (left.srem right)
  | .and, left, right => some (left &&& right)
  | .or, left, right => some (left ||| right)
  | .xor, left, right => some (left ^^^ right)
  | .shl, left, right => some (left <<< right.toNat)
  | .lshr, left, right => some (left >>> right.toNat)
  | .ashr, left, right => some (left.sshiftRight right.toNat)
  | .eq, left, right => some (BitVec.ofBool (left == right))
  | .ne, left, right => some (BitVec.ofBool (left != right))
  | .ult, left, right => some (BitVec.ofBool (left.ult right))
  | .ule, left, right => some (BitVec.ofBool (left.ule right))
  | .ugt, left, right => some (BitVec.ofBool (right.ult left))
  | .uge, left, right => some (BitVec.ofBool (right.ule left))
  | .slt, left, right => some (BitVec.ofBool (left.slt right))
  | .sle, left, right => some (BitVec.ofBool (left.sle right))
  | .sgt, left, right => some (BitVec.ofBool (right.slt left))
  | .sge, left, right => some (BitVec.ofBool (right.sle left))

section

variable {bits : Nat}

@[simp]
theorem Word.ofInt_toNat
    (vector : BitVec bits) :
    BitVec.ofInt bits (vector.toNat : Int) = vector := by
  rw [BitVec.ofInt_natCast, BitVec.ofNat_toNat, BitVec.setWidth_eq]

/-- The bit of a comparison. -/
theorem Word.ofInt_ofBool
    {comparison : Prop}
    [Decidable comparison]
    {truth : Bool}
    (decides : comparison ↔ truth = true) :
    BitVec.ofInt 1 (Word.ofBool (decide comparison)) = BitVec.ofBool truth := by
  cases truth with
  | true =>
      rw [decide_eq_true (decides.2 rfl)]
      rfl
  | false =>
      rw [decide_eq_false (mt decides.1 Bool.false_ne_true)]
      rfl

theorem Word.ofInt_add
    (left right : BitVec bits) :
    BitVec.ofInt bits ((left.toNat : Int) + right.toNat) = left + right := by
  rw [BitVec.ofInt_add, Word.ofInt_toNat, Word.ofInt_toNat]

theorem Word.ofInt_sub
    (left right : BitVec bits) :
    BitVec.ofInt bits ((left.toNat : Int) - right.toNat) = left - right := by
  rw [sub_eq_add_neg, BitVec.ofInt_add, BitVec.ofInt_neg, Word.ofInt_toNat,
    Word.ofInt_toNat, BitVec.sub_eq_add_neg]

theorem Word.ofInt_mul
    (left right : BitVec bits) :
    BitVec.ofInt bits ((left.toNat : Int) * right.toNat) = left * right := by
  rw [BitVec.ofInt_mul, Word.ofInt_toNat, Word.ofInt_toNat]

/-- Division of unsigned readings, rounded down, is unsigned division. -/
theorem Word.ofInt_fdiv
    (left right : BitVec bits) :
    BitVec.ofInt bits ((left.toNat : Int).fdiv right.toNat) = left / right := by
  rw [Int.fdiv_eq_ediv_of_nonneg _ (Int.natCast_nonneg _), ← Int.natCast_ediv,
    ← BitVec.toNat_udiv, Word.ofInt_toNat]

theorem Word.ofInt_fmod
    (left right : BitVec bits) :
    BitVec.ofInt bits ((left.toNat : Int).fmod right.toNat) = left % right := by
  rw [Int.fmod_eq_emod_of_nonneg _ (Int.natCast_nonneg _), ← Int.natCast_emod,
    ← BitVec.toNat_umod, Word.ofInt_toNat]

/-- The least integer divided by minus one wraps around on both sides. -/
theorem Word.ofInt_tdiv
    (left right : BitVec bits) :
    BitVec.ofInt bits (left.toInt.tdiv right.toInt) = left.sdiv right := by
  apply BitVec.eq_of_toInt_eq
  rw [BitVec.toInt_ofInt, BitVec.toInt_sdiv]

/-- The remainder of signed readings, towards zero, is the signed remainder. -/
theorem Word.ofInt_tmod
    (left right : BitVec bits) :
    BitVec.ofInt bits (left.toInt.tmod right.toInt) = left.srem right := by
  rw [← BitVec.toInt_srem, BitVec.ofInt_toInt]

theorem Word.ofInt_shiftLeft
    (vector : BitVec bits)
    (amount : Nat) :
    BitVec.ofInt bits (vector.toNat * 2 ^ amount : Nat) = vector <<< amount := by
  apply BitVec.eq_of_toNat_eq
  rw [BitVec.ofInt_natCast, BitVec.toNat_ofNat, BitVec.toNat_shiftLeft, Nat.shiftLeft_eq]

theorem Word.ofInt_shiftRight
    (vector : BitVec bits)
    (amount : Nat) :
    BitVec.ofInt bits ((vector.toNat : Int) >>> amount) = vector >>> amount := by
  rw [← Int.natCast_shiftRight, ← BitVec.toNat_ushiftRight, Word.ofInt_toNat]

/-- From the sign bit on, a shift to the right copies the sign. -/
theorem Word.toInt_shiftRight_min
    (vector : BitVec bits)
    (amount : Nat) :
    vector.toInt >>> min amount (bits - 1) = vector.toInt >>> amount := by
  by_cases inside : amount ≤ bits - 1
  · rw [min_eq_left inside]
  · rw [min_eq_right (by omega), Int.shiftRight_eq_div_pow, Int.shiftRight_eq_div_pow]
    have upper := vector.toInt_lt
    have lower := vector.le_toInt
    have wider : (2 : Int) ^ (bits - 1) ≤ 2 ^ amount :=
      pow_le_pow_right₀ (by decide) (by omega)
    push_cast
    by_cases negative : vector.toInt < 0
    · rw [Int.ediv_eq_neg_one_of_neg_of_le negative (by omega),
        Int.ediv_eq_neg_one_of_neg_of_le negative (by omega)]
    · rw [Int.ediv_eq_zero_of_lt (by omega) upper,
        Int.ediv_eq_zero_of_lt (by omega) (by omega)]

/-- A signed reading shifted by at most the width less one is filled with its sign. -/
theorem Word.ofInt_shiftRight_min
    (vector : BitVec bits)
    (amount : Nat) :
    BitVec.ofInt bits (vector.toInt >>> min amount (bits - 1)) = vector.sshiftRight amount := by
  rw [Word.toInt_shiftRight_min, ← BitVec.toInt_sshiftRight, BitVec.ofInt_toInt]

theorem Word.toNat_eq_zero
    (vector : BitVec bits) :
    (vector.toNat : Int) = 0 ↔ vector = 0 := by
  rw [Int.natCast_eq_zero, ← BitVec.toNat_inj]
  rfl

theorem Word.toInt_eq_zero
    (vector : BitVec bits) :
    vector.toInt = 0 ↔ vector = 0 := by
  rw [← BitVec.toInt_inj]
  exact iff_of_eq (congrArg _ BitVec.toInt_zero.symm)

/-- A quotient or remainder exists on both sides or on neither. -/
theorem BinaryOp.map_divided
    {isZero isZeroVector : Prop}
    [Decidable isZero]
    [Decidable isZeroVector]
    {quotient : Int}
    {vector : BitVec bits}
    (zero : isZero ↔ isZeroVector)
    (same : BitVec.ofInt bits quotient = vector) :
    (if isZero then none else some quotient).map (BitVec.ofInt bits) =
      if isZeroVector then none else some vector := by
  by_cases divides : isZeroVector
  · rw [if_pos divides, if_pos (zero.2 divides)]
    rfl
  · rw [if_neg divides, if_neg (mt zero.1 divides), ← same]
    rfl

end

section

variable {wide : Prop} {width : Int}

/-- A shift to the left loses the bits above the width, or all of them. -/
theorem BinaryOp.affords_apply_shl
    (positive : 0 < width)
    (enough : Word.widest < width → wide)
    (left right : BitVec width.toNat) :
    Affords wide
      (if (right.toNat : Int) < width then do
        return some (← Word.shiftLeft left.toNat right.toNat)
      else return some 0)
      fun outcome => outcome.map (BitVec.ofInt width.toNat) = some (left <<< right.toNat) := by
  by_cases inside : (right.toNat : Int) < width
  · rw [if_pos inside]
    have size := Word.log2_toNat_lt (by omega) left
    have shifted : Affords wide (Word.shiftLeft left.toNat right.toNat) fun value =>
        value = (left.toNat * 2 ^ right.toNat : Nat) :=
      Word.affords_shiftLeft fun large => enough (by omega)
    refine Affords.bind (shifted.mono fun value isShifted => ?_)
    subst isShifted
    exact congrArg some (Word.ofInt_shiftLeft left right.toNat)
  · rw [if_neg inside]
    have beyond : left <<< right.toNat = 0 := BitVec.shiftLeft_eq_zero (by omega)
    rw [beyond]
    rfl

/-- Before it is cut to its width, the integer of an operator is what the operator means. -/
theorem BinaryOp.affords_apply
    (operator : BinaryOp)
    (positive : 0 < width)
    (enough : Word.widest < width → wide)
    (left right : BitVec width.toNat) :
    Affords wide (operator.apply left.toNat right.toNat width) fun outcome =>
      outcome.map (BitVec.ofInt (operator.widthOf width.toNat)) =
        operator.denote left right := by
  unfold BinaryOp.apply
  refine Affords.bind ((Word.affords_signed positive enough left).mono fun first isFirst => ?_)
  refine Affords.bind ((Word.affords_signed positive enough right).mono fun second isSecond => ?_)
  subst isFirst
  subst isSecond
  cases operator with
  | add => exact congrArg some (Word.ofInt_add left right)
  | sub => exact congrArg some (Word.ofInt_sub left right)
  | mul => exact congrArg some (Word.ofInt_mul left right)
  | udiv =>
      exact BinaryOp.map_divided (Word.toNat_eq_zero right) (Word.ofInt_fdiv left right)
  | urem =>
      exact BinaryOp.map_divided (Word.toNat_eq_zero right) (Word.ofInt_fmod left right)
  | sdiv =>
      exact BinaryOp.map_divided (Word.toInt_eq_zero right) (Word.ofInt_tdiv left right)
  | srem =>
      exact BinaryOp.map_divided (Word.toInt_eq_zero right) (Word.ofInt_tmod left right)
  | and =>
      refine congrArg some (Eq.trans ?_ (Word.ofInt_toNat (left &&& right)))
      rw [BitVec.toNat_and]
      rfl
  | or =>
      refine congrArg some (Eq.trans ?_ (Word.ofInt_toNat (left ||| right)))
      rw [BitVec.toNat_or]
      rfl
  | xor =>
      refine congrArg some (Eq.trans ?_ (Word.ofInt_toNat (left ^^^ right)))
      rw [BitVec.toNat_xor]
      rfl
  | shl => exact BinaryOp.affords_apply_shl positive enough left right
  | lshr =>
      dsimp only
      by_cases inside : (right.toNat : Int) < width
      · rw [if_pos inside]
        exact congrArg some (Word.ofInt_shiftRight left right.toNat)
      · rw [if_neg inside]
        have beyond : left >>> right.toNat = 0 := BitVec.ushiftRight_eq_zero (by omega)
        exact congrArg some beyond.symm
  | ashr =>
      dsimp only
      have amount : min (right.toNat : Int) (width - 1) =
          (min right.toNat (width.toNat - 1) : Nat) := by
        omega
      rw [amount]
      exact congrArg some (Word.ofInt_shiftRight_min left right.toNat)
  | eq => exact congrArg some (Word.ofInt_ofBool (by simp [BitVec.toNat_inj]))
  | ne => exact congrArg some (Word.ofInt_ofBool (by simp [BitVec.toNat_inj]))
  | ult | ugt => exact congrArg some (Word.ofInt_ofBool (by simp [BitVec.ult]))
  | ule | uge => exact congrArg some (Word.ofInt_ofBool (by simp [BitVec.ule]))
  | slt | sgt => exact congrArg some (Word.ofInt_ofBool BitVec.slt_iff_toInt_lt.symm)
  | sle | sge => exact congrArg some (Word.ofInt_ofBool BitVec.sle_iff_toInt_le.symm)

end

end Diverge
