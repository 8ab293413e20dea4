import Diverge.Json.Basic
import Diverge.Text.Integer

/-!
# Reading JSON

The reader takes the JSON of the standard and, as numbers, also `NaN`, `Infinity` and
`-Infinity`.  Blanks, tabs and line ends may stand around values.  A control character inside a
text must be escaped.  Of members with the same name the last value counts, at the place of the
first.  An integer may have at most `Integer.maxDigits` digits.
-/

namespace Diverge

namespace Json

/-- Why a text could not be read. -/
inductive ReadFault where
  /-- The text is not JSON. -/
  | malformed
  /-- An integer has too many digits. -/
  | tooManyDigits (count : Nat)
  deriving DecidableEq, Repr

/-- A reader takes something from the front of a text. -/
abbrev Reader (α : Type) := List Char → Except ReadFault (α × List Char)

/-- Whether a character may stand between values. -/
def isBlank (char : Char) : Bool :=
  char == ' ' || char == '\t' || char == '\n' || char == '\r'

/-- A text without the blanks at its front. -/
def skipBlanks (text : List Char) : List Char :=
  text.dropWhile isBlank

/-! ## Texts -/

/-- The number that hexadecimal digits stand for. -/
def hexValue? (digits : List Char) : Option Nat :=
  digits.foldlM (fun value char => (Hex.digit? char).map (16 * value + ·)) 0

/-- The character of a short escape. -/
def shortEscape? : Char → Option Char
  | '"' => some '"'
  | '\\' => some '\\'
  | '/' => some '/'
  | 'b' => some '\x08'
  | 'f' => some '\x0c'
  | 'n' => some '\n'
  | 'r' => some '\r'
  | 't' => some '\t'
  | _ => none

/-- The code points and code units of a text, up to the quote that ends it. -/
def readUnits : Reader (List Nat)
  | [] => .error .malformed
  | '"' :: rest => .ok ([], rest)
  | '\\' :: 'u' :: first :: second :: third :: fourth :: rest => do
      match hexValue? [first, second, third, fourth] with
      | none => .error .malformed
      | some unit =>
          let (units, rest) ← readUnits rest
          pure (unit :: units, rest)
  | '\\' :: char :: rest => do
      match shortEscape? char with
      | none => .error .malformed
      | some char =>
          let (units, rest) ← readUnits rest
          pure (char.toNat :: units, rest)
  | char :: rest => do
      if char.toNat < 0x20 ∨ char = '\\' then .error .malformed
      else
        let (units, rest) ← readUnits rest
        pure (char.toNat :: units, rest)

/-- Join the halves of surrogate pairs. -/
def joinUnits : List Nat → CodePoints
  | first :: second :: rest =>
      if 0xd800 ≤ first ∧ first < 0xdc00 ∧ 0xdc00 ≤ second ∧ second < 0xe000 then
        (0x10000 + (first - 0xd800) * 0x400 + (second - 0xdc00)) :: joinUnits rest
      else first :: joinUnits (second :: rest)
  | units => units

/-- A text, its opening quote being taken already. -/
def readText : Reader CodePoints := fun text => do
  let (units, rest) ← readUnits text
  pure (joinUnits units, rest)

/-! ## Numbers -/

/-- The value of a decimal digit. -/
def digitValue (char : Char) : Nat :=
  char.toNat - 48

/-- The number that decimal digits stand for. -/
def decimalValue (digits : List Char) : Nat :=
  digits.foldl (fun value char => 10 * value + digitValue char) 0

/-- Decimal digits at the front of a text. -/
def takeDigits (text : List Char) : List Char × List Char :=
  (text.takeWhile Char.isDigit, text.dropWhile Char.isDigit)

/-- The digits after a point, if there are any. -/
def takeFraction : List Char → Option (List Char) × List Char
  | '.' :: rest =>
      let (digits, after) := takeDigits rest
      if digits.isEmpty then (none, '.' :: rest) else (some digits, after)
  | text => (none, text)

/-- The sign in front of a power of ten. -/
def takeSign : List Char → Bool × List Char
  | '-' :: rest => (true, rest)
  | '+' :: rest => (false, rest)
  | text => (false, text)

/-- A power of ten, if there is one. -/
def takePower (text : List Char) : Option Int × List Char :=
  match text with
  | mark :: rest =>
      if mark = 'e' ∨ mark = 'E' then
        let (negative, rest) := takeSign rest
        let (digits, after) := takeDigits rest
        if digits.isEmpty then (none, text)
        else
          let power : Int := decimalValue digits
          (some (if negative then -power else power), after)
      else (none, text)
  | [] => (none, [])

/-- The digits before the point: a zero, or digits that start with another one. -/
def takeWhole : Reader (List Char)
  | '0' :: rest => .ok (['0'], rest)
  | text =>
      let (digits, rest) := takeDigits text
      if digits.isEmpty then .error .malformed else .ok (digits, rest)

/-- A number without its sign. -/
def readNumber (negative : Bool) : Reader Json := fun text => do
  let (whole, rest) ← takeWhole text
  let (fraction, rest) := takeFraction rest
  let (power, rest) := takePower rest
  match fraction, power with
  | none, none =>
      if whole.length > Integer.maxDigits then .error (.tooManyDigits whole.length)
      else
        let value : Int := decimalValue whole
        pure (.int (if negative then -value else value), rest)
  | fraction, power =>
      let digits := fraction.getD []
      let value := Binary64.ofDecimal negative (decimalValue (whole ++ digits))
        (power.getD 0 - digits.length)
      pure (.real value, rest)

/-! ## Values -/

/-- The members of an object, of which the last with a name counts. -/
def ofMembers (members : List (CodePoints × Json)) : Json :=
  .obj (members.foldl (fun known (name, value) => Assoc.put known name value) [])

/-- A value that begins with a letter or a digit. -/
def readSimple : Reader Json
  | 'n' :: 'u' :: 'l' :: 'l' :: rest => .ok (.null, rest)
  | 't' :: 'r' :: 'u' :: 'e' :: rest => .ok (.bool true, rest)
  | 'f' :: 'a' :: 'l' :: 's' :: 'e' :: rest => .ok (.bool false, rest)
  | 'N' :: 'a' :: 'N' :: rest => .ok (.real .nan, rest)
  | 'I' :: 'n' :: 'f' :: 'i' :: 'n' :: 'i' :: 't' :: 'y' :: rest =>
      .ok (.real (.infinite false), rest)
  | '-' :: 'I' :: 'n' :: 'f' :: 'i' :: 'n' :: 'i' :: 't' :: 'y' :: rest =>
      .ok (.real (.infinite true), rest)
  | '-' :: rest => readNumber true rest
  | text => readNumber false text

mutual

/-- A value; `depth` bounds the nesting. -/
def readValue (depth : Nat) : Reader Json := fun text =>
  match depth with
  | 0 => .error .malformed
  | depth + 1 =>
      match text with
      | '"' :: rest => do
          let (value, rest) ← readText rest
          pure (.str value, rest)
      | '[' :: rest =>
          match skipBlanks rest with
          | ']' :: rest => .ok (.arr [], rest)
          | rest => do
              let (items, rest) ← readItems depth rest
              pure (.arr items, rest)
      | '\x7b' :: rest =>
          match skipBlanks rest with
          | '\x7d' :: rest => .ok (.obj [], rest)
          | rest => do
              let (members, rest) ← readMembers depth rest
              pure (ofMembers members, rest)
      | text => readSimple text

/-- The items of a list, up to the bracket that ends it. -/
def readItems (depth : Nat) : Reader (List Json) := fun text =>
  match depth with
  | 0 => .error .malformed
  | depth + 1 => do
      let (item, rest) ← readValue depth text
      match skipBlanks rest with
      | ']' :: rest => pure ([item], rest)
      | ',' :: rest =>
          let (items, rest) ← readItems depth (skipBlanks rest)
          pure (item :: items, rest)
      | _ => .error .malformed

/-- The members of an object, up to the brace that ends it. -/
def readMembers (depth : Nat) : Reader (List (CodePoints × Json)) := fun text =>
  match depth with
  | 0 => .error .malformed
  | depth + 1 => do
      match text with
      | '"' :: rest =>
          let (name, rest) ← readText rest
          match skipBlanks rest with
          | ':' :: rest =>
              let (value, rest) ← readValue depth (skipBlanks rest)
              match skipBlanks rest with
              | '\x7d' :: rest => pure ([(name, value)], rest)
              | ',' :: rest =>
                  let (members, rest) ← readMembers depth (skipBlanks rest)
                  pure ((name, value) :: members, rest)
              | _ => .error .malformed
          | _ => .error .malformed
      | _ => .error .malformed

end

/-- The value that a text stands for; nesting and repetition are bounded by its length. -/
def parse (text : String) : Except ReadFault Json := do
  let chars := text.toList
  let (value, rest) ← readValue (2 * chars.length + 2) (skipBlanks chars)
  if (skipBlanks rest).isEmpty then pure value else .error .malformed

end Json

end Diverge
