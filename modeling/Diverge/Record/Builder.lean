import Diverge.Record.Basic

/-!
# Building test records

A builder turns a concrete input into a record that can be replayed.  Arguments and variables
become objects at once; files, standard input and standard output when the record is built.
Every object that the replay has to know of is announced among the arguments of the record.
-/

namespace Diverge

/-- A record in the making. -/
structure Builder where
  record : TestRecord
  /-- How many arguments were added. -/
  argCount : Nat := 0
  stdin : Option (List UInt8) := none
  stdout : Option (List UInt8) := none
  files : List (List UInt8) := []
  /-- What was told, the latest last. -/
  log : List String := []

/-- Computations on a builder; a fault leaves it as it was when the fault arose. -/
abbrev BuilderM := EStateM RecordFault Builder

namespace Builder

/-- A builder for a program, of which nothing else is known. -/
def start (program : String) : Builder :=
  { record := { args := [program] } }

/-- The size of the object that holds standard output. -/
def stdoutSize : Nat := 1024

/-- Append an object to the record. -/
def push (name : String) (data : List UInt8) : BuilderM Unit := do
  let record ← ofExcept ((← get).record.push name data)
  modify ({ · with record })

/-- Announce something among the arguments of the record. -/
def announce (words : List String) : BuilderM Unit :=
  modify fun builder =>
    { builder with record := { builder.record with args := builder.record.args ++ words } }

/-- The name of the argument at a position: at least two digits. -/
def argName (position : Nat) : String :=
  "arg" ++ (if position < 10 then "0" else "") ++ toString position

/-- Add an argument; its object ends in a zero byte. -/
def addArgument (value : Argument) : BuilderM Unit := do
  let name := argName (← get).argCount
  modify fun builder => { builder with argCount := builder.argCount + 1 }
  push name (value.encoded ++ [0])
  announce ["-sym-arg", toString value.encoded.length]
  let line :=
    "argument " ++ name ++ ": " ++ toString (value.encoded.length + 1) ++ " bytes"
  modify fun builder => { builder with log := builder.log ++ [line] }

/-- Add several arguments. -/
def addArguments : List Argument → BuilderM Unit
  | [] => pure ()
  | value :: rest => do
      addArgument value
      addArguments rest

/-- The low bytes of an integer, least significant first. -/
def littleEndian : Nat → Int → List UInt8
  | 0, _ => []
  | count + 1, value => UInt8.ofNat (value % 256).toNat :: littleEndian count (value / 256)

/-- Add a variable of a number of bytes; an integer of that many must be one that can be made. -/
def addVariable (name : String) (size value : Int) : BuilderM Unit := do
  if size < 0 then throw .negativeSize
  ofExcept ((ByteCount.checkShift 1 (8 * size.toNat)).mapError RecordFault.count)
  push name (littleEndian size.toNat value)

/-- Add a file. -/
def addFile (content : List UInt8) : BuilderM Unit :=
  modify fun builder => { builder with files := builder.files ++ [content] }

/-- Give standard input, which can be given once. -/
def addStdin (content : List UInt8) : BuilderM Unit := do
  if (← get).stdin.isSome then throw .stdinTwice
  modify ({ · with stdin := some content })

/-- Give standard output, which can be given once. -/
def addStdout (content : List UInt8) : BuilderM Unit := do
  if (← get).stdout.isSome then throw .stdoutTwice
  modify ({ · with stdout := some content })

/-- Fill bytes up with zeros. -/
def padTo (size : Nat) (content : List UInt8) : List UInt8 :=
  content ++ List.replicate (size - content.length) 0

/-- The name of the file at a position: a letter from A on. -/
def fileName (position : Nat) : String :=
  String.singleton (Char.ofNat (65 + position)) ++ "-data"

/-- Append the files from a position on, each filled up to a size. -/
def pushFrom (size : Nat) (position : Nat) : List (List UInt8) → BuilderM Unit
  | [] => pure ()
  | content :: rest => do
      push (fileName position) (padTo size content)
      pushFrom size (position + 1) rest

/-- The size of the largest file. -/
def largest (files : List (List UInt8)) : Nat :=
  files.foldl (fun size content => max size content.length) 0

/-- Append the files, if there are any, all of the size of the largest. -/
def pushFiles (files : List (List UInt8)) : BuilderM Unit :=
  if files.isEmpty then pure ()
  else do
    pushFrom (largest files) 0 files
    announce ["-sym-files", toString files.length, toString (largest files)]

/-- Append standard input, if it was given. -/
def pushStdin : Option (List UInt8) → BuilderM Unit
  | none => pure ()
  | some content => do
      push "stdin" content
      announce ["-sym-stdin", toString content.length]

/-- Append standard output, if it was given, cut or filled up to its size. -/
def pushStdout : Option (List UInt8) → BuilderM Unit
  | none => pure ()
  | some content => do
      push "stdout" (padTo stdoutSize (content.take stdoutSize))
      announce ["-sym-stdout"]

/-- The version of the format. -/
def version : List UInt8 := [1, 0, 0, 0]

/-- Append files, standard input, standard output and the version to the record. -/
def build : BuilderM TestRecord := do
  let builder ← get
  pushFiles builder.files
  pushStdin builder.stdin
  pushStdout builder.stdout
  push "model_version" version
  pure (← get).record

end Builder

end Diverge
