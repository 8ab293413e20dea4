import Diverge.Text.Digit

/-!
# Integers in texts

An integer is written in decimal.  It is read from decimal digits of any script, between which
single underscores may stand, with a sign in front; blanks around it do not count.  Either way it
has at most `Integer.maxDigits` digits.
-/

namespace Diverge

namespace Integer

/-- The most digits of an integer in a text. -/
def maxDigits : Nat := 4300

/-- How an integer with too many digits is refused, with their number where it is known. -/
def limitMessage (count : Option Nat) : String :=
  "Exceeds the limit (" ++ toString maxDigits ++ " digits) for integer string conversion" ++
    (count.elim "" fun count => ": value has " ++ toString count ++ " digits") ++
    "; use sys.set_int_max_str_digits() to increase the limit"

/-! ## Writing -/

/-- The least natural number with too many digits. -/
def limit : Nat := Nat.pow 10 maxDigits

/-- The decimal text of an integer, if that has not too many digits. -/
def text? (value : Int) : Option String :=
  if value.natAbs < limit then some (toString value) else none

/-! ## Reading -/

/-- Why a text is not read as an integer. -/
inductive Refusal where
  /-- The text is no integer. -/
  | malformed
  /-- The integer has too many digits. -/
  | tooManyDigits (count : Nat)
  deriving DecidableEq, Repr

/-- Whether a character is a blank. -/
def isBlank (char : Char) : Bool :=
  let code := char.toNat
  (0x09 ≤ code && code ≤ 0x0d) || code == 0x20 || code == 0x85 || code == 0xa0 ||
    code == 0x1680 || (0x2000 ≤ code && code ≤ 0x200a) || code == 0x2028 || code == 0x2029 ||
    code == 0x202f || code == 0x205f || code == 0x3000

/-- A text without the blanks around it. -/
def trim (text : List Char) : List Char :=
  ((text.dropWhile isBlank).reverse.dropWhile isBlank).reverse

/-- Whether a character is a digit or an underscore. -/
def isNumeral (char : Char) : Bool :=
  char == '_' || Digit.isDigit char

/-- Every underscore stands between two digits; `after` tells whether a digit stands before. -/
def wellSpaced (after : Bool) : List Char → Bool
  | [] => after
  | '_' :: rest => after && wellSpaced false rest
  | _ :: rest => wellSpaced true rest

/-- The number that digits stand for. -/
def ofDigits (digits : List Nat) : Nat :=
  digits.foldl (fun value digit => 10 * value + digit) 0

/-- The number that a text without blanks and sign stands for. -/
def readDigits (text : List Char) : Except Refusal Nat :=
  let numerals := text.takeWhile isNumeral
  let digits := numerals.filterMap Digit.value?
  if !wellSpaced false numerals then .error .malformed
  else if digits.length > maxDigits then .error (.tooManyDigits digits.length)
  else if (text.dropWhile isNumeral).isEmpty then .ok (ofDigits digits)
  else .error .malformed

/-- The integer that a text stands for. -/
def read (text : List Char) : Except Refusal Int :=
  match trim text with
  | '-' :: rest => (readDigits rest).map fun value => -(value : Int)
  | '+' :: rest => (readDigits rest).map fun value => (value : Int)
  | rest => (readDigits rest).map fun value => (value : Int)

example : (read " -1_000 ".toList).toOption = some (-1000) := by decide +kernel
example : (read "1__0".toList).toOption = none := by decide +kernel
example : (read "_1".toList).toOption = none := by decide +kernel
example : (read "12x".toList).toOption = none := by decide +kernel

end Integer

end Diverge
