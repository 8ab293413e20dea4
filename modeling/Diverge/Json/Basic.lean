import Diverge.Assoc
import Diverge.Number.Binary64
import Diverge.Text.Hex
import Diverge.Text.Printable

/-!
# JSON values

A JSON value keeps integers apart from other numbers, and the members of an object in the order
in which their names first appeared.  A text is kept by its code points, among which may be halves
of surrogate pairs that stand alone.  `Json.describe` tells a value in words that keep all of it
apart: texts in quotes, lists in brackets, objects in braces.
-/

namespace Diverge

/-- The code points of a text; a half of a surrogate pair may stand alone. -/
abbrev CodePoints := List Nat

namespace CodePoints

/-- The code points of a string. -/
def ofString (text : String) : CodePoints :=
  text.toList.map Char.toNat

/-- Whether a code point is half of a surrogate pair. -/
def isSurrogate (code : Nat) : Bool :=
  0xd800 ≤ code && code < 0xe000

/--
The character of a code point.  There is no character for half of a surrogate pair, so it is
replaced: a text with one is not told apart from a text with the replacement.
-/
def charOf (code : Nat) : Char :=
  if isSurrogate code then '\ufffd' else Char.ofNat code

/-- The characters of a text. -/
def toChars (text : CodePoints) : List Char :=
  text.map charOf

/-- A text as a string. -/
def toText (text : CodePoints) : String :=
  String.ofList text.toChars

end CodePoints

/-- JSON values. -/
inductive Json where
  | null
  | bool (value : Bool)
  | int (value : Int)
  | real (value : Binary64)
  | str (value : CodePoints)
  | arr (items : List Json)
  | obj (members : List (CodePoints × Json))

namespace Json

/-- An object with the given fields. -/
def ofFields (fields : List (String × Json)) : Json :=
  .obj (fields.map fun (name, value) => (CodePoints.ofString name, value))

/-- What sort of value it is, in the words of messages. -/
def typeName : Json → String
  | .null => "NoneType"
  | .bool _ => "bool"
  | .int _ => "int"
  | .real _ => "float"
  | .str _ => "str"
  | .arr _ => "list"
  | .obj _ => "dict"

/-- A number in hexadecimal with a number of digits. -/
def hexDigits : Nat → Nat → List Char
  | 0, _ => []
  | count + 1, value => hexDigits count (value / 16) ++ [Hex.digit (value % 16)]

/-- A code point that is not printable, in a numeric form as long as it needs to be. -/
def numericEscape (code : Nat) : List Char :=
  if code < 0x100 then '\\' :: 'x' :: hexDigits 2 code
  else if code < 0x10000 then '\\' :: 'u' :: hexDigits 4 code
  else '\\' :: 'U' :: hexDigits 8 code

/-- A code point inside a text told in quotes. -/
def describePoint (quote : Char) (code : Nat) : List Char :=
  if code = quote.toNat ∨ code = '\\'.toNat then ['\\', Char.ofNat code]
  else if code = '\n'.toNat then ['\\', 'n']
  else if code = '\r'.toNat then ['\\', 'r']
  else if code = '\t'.toNat then ['\\', 't']
  else if Printable.isPrintable code then [Char.ofNat code]
  else numericEscape code

/-- A text in quotes: single ones, unless these occur in it and double ones do not. -/
def describeText (text : CodePoints) : List Char :=
  let quote := if text.contains '\''.toNat && !text.contains '"'.toNat then '"' else '\''
  quote :: (text.flatMap (describePoint quote) ++ [quote])

mutual

/-- A value in words. -/
def describe : Json → String
  | .null => "None"
  | .bool value => if value then "True" else "False"
  | .int value => toString value
  | .real value => value.render
  | .str value => String.ofList (describeText value)
  | .arr items => "[" ++ ", ".intercalate (describeItems items) ++ "]"
  | .obj members => "\x7b" ++ ", ".intercalate (describeMembers members) ++ "\x7d"

/-- The items of a list in words. -/
def describeItems : List Json → List String
  | [] => []
  | item :: rest => item.describe :: describeItems rest

/-- The members of an object in words. -/
def describeMembers : List (CodePoints × Json) → List String
  | [] => []
  | (name, value) :: rest =>
      (String.ofList (describeText name) ++ ": " ++ value.describe) :: describeMembers rest

end

end Json

end Diverge
