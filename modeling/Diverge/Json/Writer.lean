import Diverge.Json.Basic

/-!
# Writing JSON

Items are separated by a comma and a blank, a name from its value by a colon and a blank.  Inside
a text only printable ASCII characters stand for themselves; any other is written by its UTF-16
code units, four hexadecimal digits each, or by its short escape if it has one.  An integer is
written in full; whether it has too many digits is for the document to tell.
-/

namespace Diverge

namespace Json

/-- The UTF-16 code units of a code point. -/
def units (code : Nat) : List Nat :=
  if code < 0x10000 then [code]
  else
    let offset := code - 0x10000
    [0xd800 + offset / 0x400, 0xdc00 + offset % 0x400]

/-- The escape of a code unit. -/
def writeUnit (unit : Nat) : List Char :=
  '\\' :: 'u' :: hexDigits 4 unit

/-- A code point inside a text. -/
def writePoint (code : Nat) : List Char :=
  if code = '"'.toNat then ['\\', '"']
  else if code = '\\'.toNat then ['\\', '\\']
  else if code = '\n'.toNat then ['\\', 'n']
  else if code = '\r'.toNat then ['\\', 'r']
  else if code = '\t'.toNat then ['\\', 't']
  else if code = 0x08 then ['\\', 'b']
  else if code = 0x0c then ['\\', 'f']
  else if ' '.toNat ≤ code ∧ code ≤ '~'.toNat then [Char.ofNat code]
  else (units code).flatMap writeUnit

/-- A text. -/
def writeText (text : CodePoints) : List Char :=
  '"' :: (text.flatMap writePoint ++ ['"'])

/-- A number that is not an integer. -/
def writeReal : Binary64 → List Char
  | .nan => "NaN".toList
  | .infinite negative => (if negative then "-Infinity" else "Infinity").toList
  | value => value.render.toList

/-- Texts with a comma and a blank between them. -/
def separated (texts : List (List Char)) : List Char :=
  [',', ' '].intercalate texts

mutual

/-- The characters of a value. -/
def write : Json → List Char
  | .null => "null".toList
  | .bool value => (if value then "true" else "false").toList
  | .int value => (toString value).toList
  | .real value => writeReal value
  | .str value => writeText value
  | .arr items => '[' :: (separated (writeItems items) ++ [']'])
  | .obj members => '\x7b' :: (separated (writeMembers members) ++ ['\x7d'])

/-- The characters of the items of a list. -/
def writeItems : List Json → List (List Char)
  | [] => []
  | item :: rest => item.write :: writeItems rest

/-- The characters of the members of an object. -/
def writeMembers : List (CodePoints × Json) → List (List Char)
  | [] => []
  | (name, value) :: rest => (writeText name ++ ':' :: ' ' :: value.write) :: writeMembers rest

end

/-- The text of a value. -/
def render (value : Json) : String :=
  String.ofList value.write

end Json

end Diverge
