/-!
# Binary floating-point numbers

The values of the 64-bit binary format: a sign, a mantissa below 2^53 and a power of two, or an
infinity, or no number.  A decimal is read as the value nearest to it, a tie going to the even
mantissa.  A value is written with the fewest digits that read back as the value, and of those
with the digits nearest to it.
-/

namespace Diverge

/-- The values of the 64-bit binary format. -/
inductive Binary64 where
  | nan
  | infinite (negative : Bool)
  /-- The number `mantissa * 2 ^ exponent`, with a sign. -/
  | finite (negative : Bool) (mantissa : Nat) (exponent : Int)
  deriving DecidableEq, Repr

namespace Binary64

/-- The least exponent. -/
def minExponent : Int := -1074

/-- The greatest exponent of a number. -/
def maxExponent : Int := 971

/-- A quotient rounded to the nearest integer, a tie going to the even one. -/
def roundQuotient (numerator denominator : Nat) : Nat :=
  let quotient := numerator / denominator
  let rest := 2 * (numerator % denominator)
  if rest < denominator ∨ (rest = denominator ∧ quotient % 2 = 0) then quotient
  else quotient + 1

/-- A power of two, one for a negative exponent. -/
def binaryPower (exponent : Int) : Nat := Nat.pow 2 exponent.toNat

/-- A power of ten, one for a negative exponent. -/
def decimalPower (exponent : Int) : Nat := Nat.pow 10 exponent.toNat

/-- The least mantissa of a number that is not too small for all its digits. -/
def leastMantissa : Nat := 0x10000000000000

/-- The quotient `numerator / (denominator * 2 ^ exponent)` as a fraction. -/
def scaled (numerator denominator : Nat) (exponent : Int) : Nat × Nat :=
  (numerator * binaryPower (-exponent), denominator * binaryPower exponent)

/-- The value nearest to a fraction. -/
def ofQuotient (negative : Bool) (numerator denominator : Nat) : Binary64 :=
  if numerator = 0 then .finite negative 0 minExponent
  else
    let low := max minExponent ((numerator.log2 : Int) - denominator.log2 - 53)
    let fraction := scaled numerator denominator low
    let exponent := if fraction.1 / fraction.2 < 2 * leastMantissa then low else low + 1
    let fraction := scaled numerator denominator exponent
    let mantissa := roundQuotient fraction.1 fraction.2
    let (mantissa, exponent) :=
      if mantissa = 2 * leastMantissa then (leastMantissa, exponent + 1)
      else (mantissa, exponent)
    if exponent > maxExponent then .infinite negative else .finite negative mantissa exponent

/--
The value nearest to the decimal `digits * 10 ^ exponent`.  Decimals far out of range are
recognised by their size, so that no huge power is computed.
-/
def ofDecimal (negative : Bool) (digits : Nat) (exponent : Int) : Binary64 :=
  let size := (toString digits).length + exponent
  if digits = 0 ∨ size < -330 then .finite negative 0 minExponent
  else if size > 320 then .infinite negative
  else ofQuotient negative (digits * decimalPower exponent) (decimalPower (-exponent))

/-- The integer part of a number. -/
def truncate (mantissa : Nat) (exponent : Int) : Nat :=
  mantissa * binaryPower exponent / binaryPower (-exponent)

/-! ## Writing -/

/--
How far `digits * 10 ^ power` is from the number, counted in quarters of the last binary place
times a common factor, together with that factor and whether it lies above.
-/
def distance (mantissa : Nat) (exponent : Int) (digits : Nat) (power : Int) : Nat × Nat × Bool :=
  let decimal := 4 * (digits * decimalPower power * binaryPower (-exponent))
  let binary := 4 * (mantissa * binaryPower exponent * decimalPower (-power))
  let unit := binaryPower exponent * decimalPower (-power)
  (max decimal binary - min decimal binary, unit, binary < decimal)

/--
Whether a decimal reads back as the number: it lies within half the gap to the next number on its
side, or on the border of a number with an even mantissa.
-/
def readsBack (mantissa : Nat) (exponent : Int) (digits : Nat) (power : Int) : Bool :=
  let (far, unit, above) := distance mantissa exponent digits power
  let narrow := mantissa = leastMantissa ∧ minExponent < exponent ∧ !above
  let reach := if narrow then unit else 2 * unit
  0 < digits && (far < reach || (far = reach && mantissa % 2 = 0))

/-- The multiple of a power of ten nearest to the number, if one reads back. -/
def onGrid (mantissa : Nat) (exponent : Int) (power : Int) : Option Nat :=
  let below := mantissa * binaryPower exponent * decimalPower (-power) /
    (binaryPower (-exponent) * decimalPower power)
  let farBelow := (distance mantissa exponent below power).1
  let farAbove := (distance mantissa exponent (below + 1) power).1
  match readsBack mantissa exponent below power, readsBack mantissa exponent (below + 1) power with
  | true, true =>
      if farBelow < farAbove ∨ (farBelow = farAbove ∧ below % 2 = 0) then some below
      else some (below + 1)
  | true, false => some below
  | false, true => some (below + 1)
  | false, false => none

/-- The fewest digits that read back, and the power of ten that goes with them. -/
def shortest (mantissa : Nat) (exponent : Int) : Nat × Int :=
  ((List.range 660).findSome? fun (step : Nat) =>
    let power : Int := 309 - step
    (onGrid mantissa exponent power).map fun digits => (digits, power)).getD (0, 0)

/-- A number of zeros. -/
def zeros (count : Int) : List Char :=
  List.replicate count.toNat '0'

/--
Lay digits out around a point that stands after `point` of them: positionally from the fourth
place after the point to the sixteenth before it, else with a power of ten of at least two digits.
-/
def layOut (digits : List Char) (point : Int) : List Char :=
  if -4 < point ∧ point ≤ 16 then
    if point ≤ 0 then ['0', '.'] ++ zeros (-point) ++ digits
    else if digits.length ≤ point then digits ++ zeros (point - digits.length) ++ ['.', '0']
    else digits.take point.toNat ++ '.' :: digits.drop point.toNat
  else
    let power := point - 1
    let size := (toString power.natAbs).toList
    digits.take 1 ++ (if digits.length ≤ 1 then [] else '.' :: digits.drop 1) ++
      ['e', if power < 0 then '-' else '+'] ++ zeros (2 - size.length) ++ size

/-- The text of a value. -/
def render : Binary64 → String
  | .nan => "nan"
  | .infinite negative => if negative then "-inf" else "inf"
  | .finite negative mantissa exponent =>
      let sign := if negative then "-" else ""
      if mantissa = 0 then sign ++ "0.0"
      else
        let (digits, power) := shortest mantissa exponent
        let written := (toString digits).toList
        sign ++ String.ofList (layOut written (written.length + power))

end Binary64

end Diverge
