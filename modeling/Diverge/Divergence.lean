import Diverge.Assoc
import Diverge.Record.Basic
import Diverge.Text.Digit
import Diverge.Text.Hex

/-!
# Divergence between two revisions

A divergence tells on which input two revisions were compared and what each of them put out.  It
is written on one line: the arguments in the order of their positions, quoted, and for each named
output the bytes under either revision in hexadecimal.  Only outputs show the revisions, so a
divergence without outputs can be written whatever its revisions are, and one with outputs if the
numbers of both have not too many digits.
-/

namespace Diverge

/-- What two revisions did on one input. -/
structure Divergence where
  firstRevision : Int
  secondRevision : Int
  /-- The arguments by position. -/
  args : Assoc Int Argument := []
  /-- The bytes put out under each name by the two revisions. -/
  outputs : Assoc String (List UInt8 × List UInt8) := []
  /-- The standard output of a revision. -/
  stdouts : Assoc Int (List UInt8) := []

namespace Divergence

/-- The text of the number of a revision. -/
def renderRevision (revision : Int) : Except RecordFault String :=
  (Integer.text? revision).elim (.error .tooManyDigits) .ok

/-- A revision must be one of the two. -/
def checkRevision (divergence : Divergence) (revision : Int) : Except RecordFault Unit := do
  if revision = divergence.firstRevision ∨ revision = divergence.secondRevision then pure ()
  else
    let given ← renderRevision revision
    let first ← renderRevision divergence.firstRevision
    let second ← renderRevision divergence.secondRevision
    throw (.unknownRevision given first second)

/-- Set the argument at a position. -/
def addArgument (divergence : Divergence) (position : Int) (value : Argument) : Divergence :=
  { divergence with args := divergence.args.put position value }

/-- Set what a revision put out under a name. -/
def addOutput (divergence : Divergence) (name : String) (revision : Int) (value : List UInt8) :
    Except RecordFault Divergence := do
  divergence.checkRevision revision
  let known := (divergence.outputs.get? name).getD ([], [])
  let changed :=
    if revision = divergence.firstRevision then (value, known.2) else (known.1, value)
  pure { divergence with outputs := divergence.outputs.put name changed }

/-- Set the standard output of a revision. -/
def addStdout (divergence : Divergence) (revision : Int) (value : List UInt8) :
    Except RecordFault Divergence := do
  divergence.checkRevision revision
  pure { divergence with stdouts := divergence.stdouts.put revision value }

/-! ## The text of a divergence -/

/-- A text with every occurrence of a character replaced. -/
def replace (old : Char) (new : List Char) (text : List Char) : List Char :=
  text.flatMap fun char => if char = old then new else [char]

/-- A text between quotes; its backslashes are replaced first, and then its quotes. -/
def quoted (value : List Char) : List Char :=
  '"' :: (replace '"' ['\\', '"'] (replace '\\' ['\\', '\\'] value) ++ ['"'])

/-- Bytes in hexadecimal, each after a mark. -/
def hexEscaped (bytes : List UInt8) : List Char :=
  bytes.flatMap fun byte => '\\' :: 'x' :: Hex.ofByte byte

/-- The arguments in the order of their positions. -/
def arguments (divergence : Divergence) : List Argument :=
  (divergence.args.mergeSort fun left right => left.1 ≤ right.1).map (·.2)

/-- Texts with a blank between them. -/
def spaced (texts : List (List Char)) : List Char :=
  [' '].intercalate texts

/-- The text of all arguments. -/
def renderArguments (divergence : Divergence) : List Char :=
  spaced (divergence.arguments.map fun value => quoted value.shown)

/-- The text of one output, a name with what the two revisions put out. -/
def renderOutput (divergence : Divergence) (output : String × List UInt8 × List UInt8) :
    Except RecordFault (List Char) := do
  let first ← renderRevision divergence.firstRevision
  let second ← renderRevision divergence.secondRevision
  pure (':' :: output.1.toList ++ " \x7b".toList ++
    spaced [first.toList, hexEscaped output.2.1, second.toList, hexEscaped output.2.2] ++
    "\x7d".toList)

/-- The text of a divergence. -/
def render (divergence : Divergence) : Except RecordFault String := do
  let outputs ← divergence.outputs.mapM divergence.renderOutput
  pure (String.ofList ("\x7b(".toList ++ divergence.renderArguments ++ ") \x7b".toList ++
    spaced outputs ++ "\x7d\x7d".toList))

/-! ## The divergence of two test records -/

/-- The position that the name of an argument tells: `arg` and two decimal digits. -/
def argPosition? (name : String) : Option Nat :=
  match name.toList with
  | ['a', 'r', 'g', tens, ones] => do
      let tens ← Digit.value? tens
      let ones ← Digit.value? ones
      pure (10 * tens + ones)
  | _ => none

/-- The name of an argument. -/
def isArgName (name : String) : Bool :=
  (argPosition? name).isSome

/-- The name of an output: `out!`, anything on one line, and a decimal digit at the end. -/
def isOutputName (name : String) : Bool :=
  match name.toList with
  | 'o' :: 'u' :: 't' :: '!' :: rest =>
      (rest.getLast?).any Digit.isDigit && !rest.contains '\n'
  | _ => false

/-- Take over the arguments of a record. -/
def addArguments (divergence : Divergence) (objects : List RecordObject) : Divergence :=
  objects.foldl (fun divergence object =>
    match argPosition? object.name with
    | some position => divergence.addArgument position (.bytes object.data)
    | none => divergence) divergence

/-- Take over the outputs of a record. -/
def addOutputs (divergence : Divergence) (revision : Int) (objects : List RecordObject) :
    Except RecordFault Divergence :=
  objects.foldlM (fun divergence object =>
    if isOutputName object.name then divergence.addOutput object.name revision object.data
    else .ok divergence) divergence

/-- Take over the outputs and the standard output of a record. -/
def addRecord (divergence : Divergence) (revision : Int) (record : TestRecord) :
    Except RecordFault Divergence := do
  let divergence ← divergence.addOutputs revision record.objects
  match record.find? "stdout" with
  | some object => divergence.addStdout revision object.data
  | none => pure divergence

/-- The divergence that the records of two revisions show; the first record gives the input. -/
def ofRecords (first second : TestRecord) (firstRevision secondRevision : Int) :
    Except RecordFault Divergence := do
  let start : Divergence := { firstRevision, secondRevision }
  let withFirst ← (start.addArguments first.objects).addRecord firstRevision first
  withFirst.addRecord secondRevision second

end Divergence

end Diverge
