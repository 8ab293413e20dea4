import Diverge.ByteCount
import Diverge.Text.Integer

/-!
# Test records

A test record holds the concrete input of one run: the arguments under which the program is
replayed, and named objects with their bytes.  It holds at most `TestRecord.limit` objects.
Arguments and names are made of whole characters; half of a surrogate pair cannot be among them.
-/

namespace Diverge

/-- Why a record, its builder or a divergence refuses an operation. -/
inductive RecordFault where
  /-- The record is full. -/
  | tooManyObjects
  /-- Standard input was given before. -/
  | stdinTwice
  /-- Standard output was given before. -/
  | stdoutTwice
  /-- A variable of a negative number of bytes. -/
  | negativeSize
  /-- A variable of too many bytes. -/
  | count (fault : CountFault)
  /-- A revision that is neither of the two compared; all three as texts. -/
  | unknownRevision (revision first second : String)
  /-- An integer has too many digits to be written. -/
  | tooManyDigits
  deriving DecidableEq, Repr

/-- A named object and its bytes. -/
structure RecordObject where
  name : String
  data : List UInt8
  deriving DecidableEq, Repr

/-- The concrete input of one run. -/
structure TestRecord where
  args : List String := []
  symArgvs : Int := 0
  symArgvLen : Int := 0
  objects : List RecordObject := []
  deriving DecidableEq, Repr

namespace TestRecord

/-- The most objects that a record holds. -/
def limit : Nat := 64

/-- Append an object, if there is room. -/
def push (record : TestRecord) (name : String) (data : List UInt8) :
    Except RecordFault TestRecord :=
  if record.objects.length < limit then
    .ok { record with objects := record.objects ++ [{ name, data }] }
  else .error .tooManyObjects

/-- The first object of a name. -/
def find? (record : TestRecord) (name : String) : Option RecordObject :=
  record.objects.find? (·.name == name)

end TestRecord

/-- The text of a fault. -/
def RecordFault.message : RecordFault → String
  | .tooManyObjects => "test record holds at most " ++ toString TestRecord.limit ++ " objects"
  | .stdinTwice => "stdin content given twice"
  | .stdoutTwice => "stdout content given twice"
  | .negativeSize => "negative shift count"
  | .count fault => fault.message
  | .unknownRevision revision first second =>
      "revision " ++ revision ++ " is neither " ++ first ++ " nor " ++ second
  | .tooManyDigits => Integer.limitMessage none

/-- The value of an argument: text, or raw bytes. -/
inductive Argument where
  | text (value : String)
  | bytes (value : List UInt8)
  deriving DecidableEq, Repr

namespace Argument

/-- The bytes of an argument; text is encoded in UTF-8. -/
def encoded : Argument → List UInt8
  | .text value => value.toUTF8.data.toList
  | .bytes value => value

/-- Bytes as text, one character for each byte. -/
def latin1 (bytes : List UInt8) : List Char :=
  bytes.map fun byte => Char.ofNat byte.toNat

/-- The text of an argument: text as it is, bytes up to the first zero, one character each. -/
def shown : Argument → List Char
  | .text value => value.toList
  | .bytes value => latin1 (value.takeWhile (· ≠ 0))

end Argument

end Diverge
