import Diverge.ByteCount
import Diverge.Json.Reader
import Diverge.Text.Integer

/-!
# Typed values from JSON

What a field of a given type takes from a JSON value.  Readers are lenient: a text can be made of
any value, an integer of texts and numbers, a truth value of anything, bytes of a count or of a
list.  What fails is collected: an object with failed fields, or a list with failed items, tells
all of them.

The rules are those of the converter `cattrs`, a library of its own, for records with typed
fields.  They are taken from it as they are: which values it accepts, in which order it looks at
the fields and how it words its refusals is assumed here and not derived from anything else.
-/

namespace Diverge

namespace Json

/-- Why a value does not fit where it stands. -/
inductive ValueFault where
  /-- A value in which members are looked up has none. -/
  | noMembers (type : String)
  /-- A value that should be an object has no names. -/
  | noNames (type : String)
  /-- A value that should be a list has no items. -/
  | noItems (type : String)
  /-- A member that must be there is missing. -/
  | missing (name : String)
  /-- A text is no integer. -/
  | badInteger (text : CodePoints)
  /-- A text has too many digits. -/
  | tooManyDigits (count : Nat)
  /-- A value that no integer can be made of. -/
  | noInteger (type : String)
  /-- No number was given where an integer is wanted. -/
  | integerOfNaN
  /-- An infinity was given where an integer is wanted. -/
  | integerOfInfinity
  /-- A number of bytes that there cannot be. -/
  | count (fault : CountFault)
  /-- An integer that is no byte. -/
  | byteRange
  /-- Something that is no integer among bytes. -/
  | noByte (type : String)
  /-- A text in place of bytes. -/
  | bytesOfText
  /-- A value that no bytes can be made of. -/
  | noBytes (type : String)
  deriving DecidableEq, Repr

/-- The text of a fault. -/
def ValueFault.message : ValueFault → String
  | .noMembers type => s!"argument of type '{type}' is not iterable"
  | .noNames type => s!"'{type}' object has no attribute 'keys'"
  | .noItems type => s!"'{type}' object is not iterable"
  | .missing name => s!"'{name}'"
  | .badInteger text =>
      "invalid literal for int() with base 10: " ++
        String.ofList ((describeText text).take 200)
  | .tooManyDigits digits => Integer.limitMessage (some digits)
  | .noInteger type =>
      "int() argument must be a string, a bytes-like object or a real number, not " ++
        s!"'{type}'"
  | .integerOfNaN => "cannot convert float NaN to integer"
  | .integerOfInfinity => "cannot convert float infinity to integer"
  | .count fault => fault.message
  | .byteRange => "bytes must be in range(0, 256)"
  | .noByte type => s!"'{type}' object cannot be interpreted as an integer"
  | .bytesOfText => "string argument without an encoding"
  | .noBytes type => s!"cannot convert '{type}' object to bytes"

/-- The things that are made of objects. -/
inductive Schema where
  | record
  | object
  | options
  deriving DecidableEq, Repr

/-- How messages name what is made of an object. -/
def Schema.name : Schema → String
  | .record => "KTest"
  | .object => "KTestObject"
  | .options => "Options"

/-- All that is wrong with a value. -/
inductive Invalid where
  | value (fault : ValueFault)
  /-- Fields that failed, in the order of the fields, and names that are not known, sorted. -/
  | fields (schema : Schema) (failed : List (String × Invalid)) (unknown : List String)
  /-- Items that failed, with their positions. -/
  | items (failed : List (Nat × Invalid))

/-! ## Single values -/

/-- The text that a value gives. -/
def toText : Json → String
  | .str value => value.toText
  | value => value.describe

/-- The integer that a text gives. -/
def integerOfText (text : CodePoints) : Except ValueFault Int :=
  (Integer.read text.toChars).mapError fun
    | .malformed => .badInteger text
    | .tooManyDigits count => .tooManyDigits count

/-- The integer that a value gives; a fraction is cut off. -/
def toInteger : Json → Except ValueFault Int
  | .int value => .ok value
  | .bool value => .ok (if value then 1 else 0)
  | .real .nan => .error .integerOfNaN
  | .real (.infinite _) => .error .integerOfInfinity
  | .real (.finite negative mantissa exponent) =>
      let value : Int := Binary64.truncate mantissa exponent
      .ok (if negative then -value else value)
  | .str value => integerOfText value
  | value => .error (.noInteger value.typeName)

/-- The truth that a value gives: nothing, zero and what is empty are false. -/
def toBool : Json → Bool
  | .null => false
  | .bool value => value
  | .int value => value ≠ 0
  | .real (.finite _ mantissa _) => mantissa ≠ 0
  | .real _ => true
  | .str value => !value.isEmpty
  | .arr items => !items.isEmpty
  | .obj members => !members.isEmpty

/-- The items of a value: those of a list, the characters of a text, the names of an object. -/
def toItems : Json → Except ValueFault (List Json)
  | .arr items => .ok items
  | .str value => .ok (value.map fun code => .str [code])
  | .obj members => .ok (members.map fun member => .str member.1)
  | value => .error (.noItems value.typeName)

/-- The byte that an item gives. -/
def toByte : Json → Except ValueFault UInt8
  | .int value =>
      if 0 ≤ value ∧ value < 256 then .ok (UInt8.ofNat value.toNat) else .error .byteRange
  | .bool value => .ok (if value then 1 else 0)
  | value => .error (.noByte value.typeName)

/-- A number of zero bytes. -/
def zeroBytes (count : Int) : Except ValueFault (List UInt8) :=
  match ByteCount.ofInt count with
  | .ok count => .ok (List.replicate count 0)
  | .error fault => .error (.count fault)

/-- The bytes that a value gives: so many zeros, or those of a list. -/
def toBytes : Json → Except ValueFault (List UInt8)
  | .int value => zeroBytes value
  | .bool value => zeroBytes (if value then 1 else 0)
  | .arr items => items.mapM toByte
  | .obj members => members.mapM fun member => toByte (.str member.1)
  | .str _ => .error .bytesOfText
  | value => .error (.noBytes value.typeName)

/-! ## Fields and items -/

/-- The members of an object. -/
abbrev Members := List (CodePoints × Json)

/-- The value of a member. -/
def member? (members : Members) (name : String) : Option Json :=
  Assoc.get? members (CodePoints.ofString name)

/-- What a field gives that may be missing. -/
def fieldOr {α : Type} (members : Members) (name : String) (default : α)
    (decode : Json → Except Invalid α) : Except Invalid α :=
  match member? members name with
  | some value => decode value
  | none => .ok default

/-- What a field gives that must be there. -/
def field {α : Type} (members : Members) (name : String) (decode : Json → Except Invalid α) :
    Except Invalid α :=
  match member? members name with
  | some value => decode value
  | none => .error (.value (.missing name))

/-- Names of members that are not known, sorted. -/
def unknownNames (members : Members) (known : List String) : List String :=
  let unknown := (members.map (·.1)).filter fun name =>
    !known.any fun other => CodePoints.ofString other == name
  (unknown.mergeSort fun left right => !right.lex left).map CodePoints.toText

/-- What failed, under the name of its field. -/
def failure {α : Type} (name : String) : Except Invalid α → List (String × Invalid)
  | .ok _ => []
  | .error invalid => [(name, invalid)]

/-- What the items of a list give, or all that failed, with their positions. -/
def decodeItems {α : Type} (decode : Json → Except Invalid α) (position : Nat) :
    List Json → List α × List (Nat × Invalid)
  | [] => ([], [])
  | item :: rest =>
      let later := decodeItems decode (position + 1) rest
      match decode item with
      | .ok value => (value :: later.1, later.2)
      | .error invalid => (later.1, (position, invalid) :: later.2)

/-- Tell a fault of a single value. -/
def single {α : Type} : Except ValueFault α → Except Invalid α
  | .ok value => .ok value
  | .error fault => .error (.value fault)

/-- The members of a value at the top of a document. -/
def topMembers : Json → Except Invalid Members
  | .obj members => .ok members
  | .arr items => .error (.value (.noNames (Json.arr items).typeName))
  | .str value => .error (.value (.noNames (Json.str value).typeName))
  | value => .error (.value (.noMembers value.typeName))

/-- The members of an item of a list. -/
def itemMembers : Json → Except Invalid Members
  | .obj members => .ok members
  | value => .error (.value (.noNames value.typeName))

/-- Why a document could not be loaded. -/
inductive LoadFault where
  | unreadable (fault : ReadFault)
  | invalid (problem : Invalid)
  /-- The document holds more objects than a record. -/
  | tooManyObjects

end Json

end Diverge
