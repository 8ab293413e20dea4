import Diverge.Fault

/-!
# Integers as words

Values are unbounded integers.  A word of a given width is an integer reduced modulo a power of
two; a signed reading subtracts the modulus when the top bit is set.  Bitwise operations act on
two's complement, so they are defined on negative integers as well.  A negative width or a
negative shift amount is a fault, and so is an integer too large to be made.
-/

namespace Diverge

namespace Word

/-- The modulus of words of a width.  Large shifts are made in steps. -/
def modulus (width : Nat) : Nat :=
  Nat.repeat (· <<< 0x80000000) (width / 0x80000000) (1 <<< (width % 0x80000000))

private theorem repeat_shiftLeft (step count start : Nat) :
    Nat.repeat (· <<< step) count start = start * Nat.pow 2 (step * count) := by
  induction count with
  | zero => simp [Nat.repeat]
  | succ count inductionHypothesis =>
      rw [Nat.repeat, inductionHypothesis, Nat.shiftLeft_eq, Nat.mul_assoc, Nat.pow_eq,
        ← Nat.pow_add, Nat.mul_succ, Nat.pow_eq]

@[simp]
theorem modulus_eq (width : Nat) : modulus width = Nat.pow 2 width := by
  rw [modulus, repeat_shiftLeft, Nat.shiftLeft_eq, Nat.one_mul, Nat.pow_eq, ← Nat.pow_add,
    Nat.mod_add_div, Nat.pow_eq]

theorem modulus_cast (width : Nat) : (modulus width : Int) = Int.pow 2 width := by
  rw [modulus_eq]
  exact Int.natCast_pow 2 width

/-- Whether `value` can be shifted left by `amount` bits. -/
def checkShift (value amount : Int) : Except Fault Unit :=
  if amount < 0 then .error .negativeShift
  else (ByteCount.checkShift value amount.toNat).mapError .count

/-- Shift `value` left by `amount` bits. -/
def shiftLeft (value amount : Int) : Except Fault Int := do
  checkShift value amount
  pure (if value = 0 then 0 else value * modulus amount.toNat)

/-- Shift `value` right by `amount` bits, rounding toward minus infinity. -/
def shiftRight (value amount : Int) : Except Fault Int :=
  if amount < 0 then .error .negativeShift else .ok (value >>> amount.toNat)

/-- The low `width` bits of `value`; the modulus must be an integer that can be made. -/
def truncate (value width : Int) : Except Fault Int := do
  checkShift 1 width
  pure (if value >>> width.toNat = 0 then value else value % modulus width.toNat)

/-- The signed reading of a `width`-bit word. -/
def signed (value width : Int) : Except Fault Int :=
  if width ≤ 0 then .error .negativeShift
  else if value >>> (width - 1).toNat % 2 = 1 then do
    checkShift 1 width
    pure (value - modulus width.toNat)
  else .ok value

/-- Integers of up to `2 ^ 38` bits can be made by a shift. -/
theorem checkShift_eq_ok {value amount : Int} (inRange : 0 ≤ amount)
    (fits : value.natAbs.log2 + amount ≤ 0x4000000000) : checkShift value amount = .ok () := by
  have positive : ¬ amount < 0 := by omega
  have made : ByteCount.checkShift value amount.toNat = .ok () :=
    ByteCount.checkShift_eq_ok (by omega)
  rw [checkShift, if_neg positive, made]
  rfl

theorem shiftLeft_eq {value amount : Int} (fits : checkShift value amount = .ok ()) :
    shiftLeft value amount = .ok (value * Int.pow 2 amount.toNat) := by
  simp only [shiftLeft, fits, modulus_cast]
  split
  · rename_i zero
    rw [zero, Int.zero_mul]
    rfl
  · rfl

theorem shiftRight_eq {value amount : Int} (inRange : 0 ≤ amount) :
    shiftRight value amount = .ok (value / Int.pow 2 amount.toNat) := by
  have positive : ¬ amount < 0 := by omega
  rw [shiftRight, if_neg positive, Int.shiftRight_eq_div_pow, Int.natCast_pow]
  rfl

/-- A value without bits above a width is its own remainder. -/
theorem truncate_eq {value width : Int} (fits : checkShift 1 width = .ok ()) :
    truncate value width = .ok (value % Int.pow 2 width.toNat) := by
  have remainder (none : value >>> width.toNat = 0) : value = value % 2 ^ width.toNat := by
    rw [Int.shiftRight_eq_div_pow] at none
    have parts := Int.mul_ediv_add_emod value (2 ^ width.toNat)
    push_cast at none
    rw [none] at parts
    simp only [Int.mul_zero, Int.zero_add] at parts
    exact parts.symm
  simp only [truncate, fits, modulus_cast]
  split
  · exact congrArg Except.ok (remainder ‹_›)
  · rfl

/-- Bitwise conjunction in two's complement. -/
def bitAnd : Int → Int → Int
  | .ofNat left, .ofNat right => .ofNat (left &&& right)
  | .ofNat left, .negSucc right => .ofNat (left - (left &&& right))
  | .negSucc left, .ofNat right => .ofNat (right - (right &&& left))
  | .negSucc left, .negSucc right => .negSucc (left ||| right)

/-- Bitwise disjunction in two's complement. -/
def bitOr : Int → Int → Int
  | .ofNat left, .ofNat right => .ofNat (left ||| right)
  | .ofNat left, .negSucc right => .negSucc (right - (right &&& left))
  | .negSucc left, .ofNat right => .negSucc (left - (left &&& right))
  | .negSucc left, .negSucc right => .negSucc (left &&& right)

/-- Bitwise exclusive disjunction in two's complement. -/
def bitXor : Int → Int → Int
  | .ofNat left, .ofNat right => .ofNat (left ^^^ right)
  | .ofNat left, .negSucc right => .negSucc (left ^^^ right)
  | .negSucc left, .ofNat right => .negSucc (left ^^^ right)
  | .negSucc left, .negSucc right => .ofNat (left ^^^ right)

/-- Bitwise complement in two's complement. -/
def bitNot (value : Int) : Int :=
  -value - 1

/-- A truth value as a one-bit word. -/
def ofBool (truth : Bool) : Int :=
  if truth then 1 else 0

@[simp]
theorem ofBool_true : ofBool true = 1 := rfl

@[simp]
theorem ofBool_false : ofBool false = 0 := rfl

/-! ## Operands that may be absent -/

/-- An operand that must be there. -/
def demand (fault : Fault) : Option Int → Except Fault Int
  | some value => .ok value
  | none => .error fault

/-- Shift right, if both operands are there. -/
def shiftRight? (value amount : Option Int) : Except Fault Int :=
  match value, amount with
  | some value, some amount => shiftRight value amount
  | value, amount => .error (.absentOperand ">>" value.isSome amount.isSome)

/-- The low bits of a value that must be there. -/
def truncate? (value : Option Int) (width : Int) : Except Fault Int := do
  checkShift 1 width
  truncate (← demand (.absentOperand "&" false true) value) width

/-- The signed reading of a word that must be there. -/
def signed? (value : Option Int) (width : Int) : Except Fault Int := do
  signed (← demand (.absentOperand ">>" false true) value) width

/-- The complement of a value that must be there. -/
def bitNot? (value : Option Int) : Except Fault Int := do
  pure (bitNot (← demand .absentComplement value))

/-- A word on top of another one of the given width. -/
def join (high low : Option Int) (width : Int) : Except Fault Int := do
  let upper ← demand (.absentOperand "<<" false true) high
  let shifted ← shiftLeft upper width
  pure (bitOr shifted (← demand (.absentOperand "|" true false) low))

/-- A value counts as true unless it is zero or absent. -/
def isTrue (value : Option Int) : Bool :=
  value.getD 0 ≠ 0

end Word

/--
The integer that an operator gives on two words of the same width, before it is cut to the width
of the result.  A division or remainder by zero has none.
-/
def BinaryOp.apply (operator : BinaryOp) (left right width : Int) : Except Fault (Option Int) := do
  let signedLeft ← Word.signed left width
  let signedRight ← Word.signed right width
  match operator with
  | .add => return some (left + right)
  | .sub => return some (left - right)
  | .mul => return some (left * right)
  | .udiv => return if right = 0 then none else some (left.fdiv right)
  | .urem => return if right = 0 then none else some (left.fmod right)
  | .sdiv => return if signedRight = 0 then none else some (signedLeft.tdiv signedRight)
  | .srem => return if signedRight = 0 then none else some (signedLeft.tmod signedRight)
  | .and => return some (Word.bitAnd left right)
  | .or => return some (Word.bitOr left right)
  | .xor => return some (Word.bitXor left right)
  | .shl => if right < width then return some (← Word.shiftLeft left right) else return some 0
  | .lshr => if right < width then return some (← Word.shiftRight left right) else return some 0
  | .ashr => return some (← Word.shiftRight signedLeft (min right (width - 1)))
  | .eq => return some (Word.ofBool (left = right))
  | .ne => return some (Word.ofBool (left ≠ right))
  | .ult => return some (Word.ofBool (left < right))
  | .ule => return some (Word.ofBool (left ≤ right))
  | .ugt => return some (Word.ofBool (left > right))
  | .uge => return some (Word.ofBool (left ≥ right))
  | .slt => return some (Word.ofBool (signedLeft < signedRight))
  | .sle => return some (Word.ofBool (signedLeft ≤ signedRight))
  | .sgt => return some (Word.ofBool (signedLeft > signedRight))
  | .sge => return some (Word.ofBool (signedLeft ≥ signedRight))

/-- What an operator gives on two words that must be there; the first one is looked at first. -/
def BinaryOp.applyPresent (operator : BinaryOp) (left right : Option Int) (width : Int) :
    Except Fault (Option Int) :=
  match left, right with
  | some left, some right => operator.apply left right width
  | left, right => do
      let _ ← Word.signed? left width
      let _ ← Word.signed? right width
      pure none

@[simp]
theorem BinaryOp.applyPresent_some (operator : BinaryOp) (left right width : Int) :
    operator.applyPresent (some left) (some right) width = operator.apply left right width := rfl

end Diverge
