/-!
# Numbers of bytes

Bytes are asked for by their number.  A number that does not fit into 64 bits, sign included, is
no number of bytes at all; a negative one is refused; and there are limits to the length of a
string of bytes and to memory.

Lists and integers take up memory as well: eight bytes for each element of a list, and four bytes
for every thirty bits of an integer.  An integer is refused before it is made when it would be too
large.

How much memory there is depends on the machine.  Here it is assumed to be 64 GiB (`memory`), of
which each request may take all.  The bounds that follow from this are assumed with it: integers
of `2 ^ 38` bits and lists of `2 ^ 33` elements can be made.
-/

namespace Diverge

/-- Why a number of bytes is refused. -/
inductive CountFault where
  /-- The number does not fit into 64 bits. -/
  | unindexable
  | negative
  /-- More bytes than a string of bytes can have. -/
  | tooLong
  /-- More bytes than there is memory. -/
  | exhausted
  /-- More digits than an integer can have. -/
  | tooWide
  deriving DecidableEq, Repr

/-- The text of a fault. -/
def CountFault.message : CountFault → String
  | .unindexable => "cannot fit 'int' into an index-sized integer"
  | .negative => "negative count"
  | .tooLong => "byte string is too large"
  | .exhausted => ""
  | .tooWide => "too many digits in integer"

namespace ByteCount

/-- Whether an integer fits into 64 bits, sign included. -/
def isIndex (value : Int) : Bool :=
  -0x8000000000000000 ≤ value && value < 0x8000000000000000

/-- The most bytes that a string of bytes can have: what 64 bits leave beside its head. -/
def longest : Int := 0x8000000000000000 - 34

/-- The bytes that memory is assumed to hold. -/
def memory : Int := 0x1000000000

/-- The number of bytes that an integer asks for. -/
def ofInt (value : Int) : Except CountFault Nat :=
  if !isIndex value then .error .unindexable
  else if value < 0 then .error .negative
  else if value > longest then .error .tooLong
  else if value > memory then .error .exhausted
  else .ok value.toNat

/-- The length of the list that an integer asks for; one below zero asks for none. -/
def ofLength (value : Int) : Except CountFault Nat :=
  if !isIndex value then .error .unindexable
  else if 8 * value > memory then .error .exhausted
  else .ok value.toNat

/-- The most digits that an integer can have: what 64 bits leave beside its head. -/
def mostDigits : Nat := (0x8000000000000000 - 25) / 4

/-- The digits of thirty bits made for an integer that is shifted left. -/
def shiftedDigits (value : Int) (amount : Nat) : Nat :=
  value.natAbs.log2 / 30 + 1 + (amount + 29) / 30

/-- Whether an integer can be shifted left: an integer other than zero has to be made for it. -/
def checkShift (value : Int) (amount : Nat) : Except CountFault Unit :=
  if value = 0 then .ok ()
  else if shiftedDigits value amount > mostDigits then .error .tooWide
  else if 4 * shiftedDigits value amount > memory then .error .exhausted
  else .ok ()

/-- Integers of up to `2 ^ 38` bits can be made. -/
theorem checkShift_eq_ok {value : Int} {amount : Nat}
    (fits : value.natAbs.log2 + amount ≤ 0x4000000000) : checkShift value amount = .ok () := by
  have few : ¬ shiftedDigits value amount > mostDigits := by
    simp only [shiftedDigits, mostDigits]
    omega
  have held : ¬ 4 * (shiftedDigits value amount : Int) > memory := by
    simp only [shiftedDigits, memory]
    omega
  simp [checkShift, few, held]

theorem ofLength_natCast {count : Nat} (fits : 8 * (count : Int) ≤ memory) :
    ofLength count = .ok count := by
  have bound : 8 * (count : Int) ≤ 0x1000000000 := fits
  have index : isIndex count = true := by
    simp only [isIndex, Bool.and_eq_true, decide_eq_true_eq]
    omega
  have held : ¬ 8 * (count : Int) > memory := by
    simp only [memory]
    omega
  simp [ofLength, index, held]

end ByteCount

end Diverge
