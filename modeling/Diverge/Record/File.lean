import Diverge.Json.Decode
import Diverge.Json.Writer
import Diverge.Record.Basic

/-!
# Test records as documents

A record is written as a JSON object with its arguments, its two sizes and its objects; the bytes
of an object are a list of integers.  Loading gives back what was written, refuses names that are
not known, and refuses a record with too many objects.

`RecordObject.ofJson` and `TestRecord.ofJson` structure a value by the assumed rules of
`Diverge.Json.Decode`: the fields in their order, then the names that are not known.
-/

namespace Diverge

namespace RecordObject

/-- An object as JSON. -/
def toJson (object : RecordObject) : Json :=
  Json.ofFields [("name", .str (.ofString object.name)),
    ("data", .arr (object.data.map fun byte => .int byte.toNat))]

/-- The object that a JSON value stands for. -/
def ofJson (json : Json) : Except Json.Invalid RecordObject := do
  let members ← Json.itemMembers json
  let name := Json.field members "name" fun value => .ok value.toText
  let data := Json.field members "data" fun value => Json.single value.toBytes
  let unknown := Json.unknownNames members ["name", "data"]
  match name, data, unknown with
  | .ok name, .ok data, [] => pure { name, data }
  | name, data, unknown =>
      throw (.fields .object (Json.failure "name" name ++ Json.failure "data" data) unknown)

end RecordObject

namespace TestRecord

/-- A record as JSON. -/
def toJson (record : TestRecord) : Json :=
  Json.ofFields [("args", .arr (record.args.map fun arg => .str (.ofString arg))),
    ("sym_argvs", .int record.symArgvs),
    ("sym_argv_len", .int record.symArgvLen),
    ("objects", .arr (record.objects.map RecordObject.toJson))]

/-- The arguments that a JSON value stands for. -/
def argsOfJson (json : Json) : Except Json.Invalid (List String) := do
  pure ((← Json.single json.toItems).map Json.toText)

/-- The objects that a JSON value stands for. -/
def objectsOfJson (json : Json) : Except Json.Invalid (List RecordObject) := do
  let items ← Json.single json.toItems
  match Json.decodeItems RecordObject.ofJson 0 items with
  | (objects, []) => pure objects
  | (_, failed) => throw (.items failed)

/-- The record that a JSON value stands for. -/
def ofJson (json : Json) : Except Json.Invalid TestRecord := do
  let members ← Json.topMembers json
  let integer (name : String) : Except Json.Invalid Int :=
    Json.fieldOr members name 0 fun value => Json.single value.toInteger
  let args := Json.fieldOr members "args" [] argsOfJson
  let symArgvs := integer "sym_argvs"
  let symArgvLen := integer "sym_argv_len"
  let objects := Json.fieldOr members "objects" [] objectsOfJson
  let unknown :=
    Json.unknownNames members ["args", "sym_argvs", "sym_argv_len", "objects"]
  match args, symArgvs, symArgvLen, objects, unknown with
  | .ok args, .ok symArgvs, .ok symArgvLen, .ok objects, [] =>
      pure { args, symArgvs, symArgvLen, objects }
  | args, symArgvs, symArgvLen, objects, unknown =>
      throw (.fields .record
        (Json.failure "args" args ++ Json.failure "sym_argvs" symArgvs ++
          Json.failure "sym_argv_len" symArgvLen ++ Json.failure "objects" objects) unknown)

/-- The text of a record, if its integers have not too many digits to be written. -/
def dump (record : TestRecord) : Except RecordFault String :=
  if (Integer.text? record.symArgvs).isSome ∧ (Integer.text? record.symArgvLen).isSome then
    .ok record.toJson.render
  else .error .tooManyDigits

/-- The record that a text stands for. -/
def load (text : String) : Except Json.LoadFault TestRecord := do
  let json ← (Json.parse text).mapError .unreadable
  let record ← (ofJson json).mapError .invalid
  if record.objects.length ≤ limit then pure record else throw .tooManyObjects

end TestRecord

end Diverge
