import Diverge.Proofs.Json.RoundTrip
import Diverge.Record.File

/-!
# What was dumped is loaded

A record becomes a JSON value, and the value becomes text; loading goes the same way back.  The
text of a value gives the value back when nothing of it is lost in writing, and this is so for the
value of a record unless one of its two integers has more digits than a text may have.  From the
value every field is found under its own name, and no name is left over.
-/

namespace Diverge

namespace CodePoints

/-- A string has no lone half of a surrogate pair. -/
theorem isWhole_ofString
    (text : String) :
    (ofString text).IsWhole := by
  intro code member
  obtain ⟨char, _, rfl⟩ := List.mem_map.mp member
  have valid := char.valid
  simp only [isSurrogate, Bool.and_eq_false_iff, decide_eq_false_iff_not]
  unfold UInt32.isValidChar Nat.isValidChar at valid
  unfold Char.toNat
  omega

/-- A string is given back by its code points. -/
theorem toText_ofString
    (text : String) :
    (ofString text).toText = text := by
  have same (char : Char) : charOf char.toNat = char := by
    have whole := isWhole_ofString (String.ofList [char]) char.toNat (by simp [ofString])
    rw [charOf, whole.2, if_neg Bool.false_ne_true, Char.ofNat_toNat]
  unfold toText toChars ofString
  rw [List.map_map, show charOf ∘ Char.toNat = id from funext same, List.map_id,
    String.ofList_toList]

theorem ofString_inj
    {first second : String} :
    ofString first = ofString second ↔ first = second := by
  constructor
  · intro same
    rw [← toText_ofString first, same, toText_ofString]
  · rintro rfl
    rfl

end CodePoints

namespace Json

/-! ## Fields -/

/-- The members that fields become. -/
def members (fields : List (String × Json)) : Members :=
  fields.map fun (name, value) => (CodePoints.ofString name, value)

/-- A field is found under its name. -/
theorem member?_members
    (fields : List (String × Json))
    (name : String) :
    member? (members fields) name = Assoc.get? fields name := by
  unfold member? members
  induction fields with
  | nil => rfl
  | cons field rest inductionHypothesis =>
      simp only [List.map_cons, Assoc.get?, CodePoints.ofString_inj, inductionHypothesis]

theorem field_members
    {α : Type}
    {fields : List (String × Json)}
    {name : String}
    {value : Json}
    (found : Assoc.get? fields name = some value)
    (decode : Json → Except Invalid α) :
    field (members fields) name decode = decode value := by
  rw [field, member?_members, found]

theorem fieldOr_members
    {α : Type}
    {fields : List (String × Json)}
    {name : String}
    {value : Json}
    (found : Assoc.get? fields name = some value)
    (default : α)
    (decode : Json → Except Invalid α) :
    fieldOr (members fields) name default decode = decode value := by
  rw [fieldOr, member?_members, found]

/-- No name is left over if the fields are the known ones. -/
theorem unknownNames_members
    {fields : List (String × Json)}
    {known : List String}
    (all : fields.map Prod.fst = known) :
    unknownNames (members fields) known = [] := by
  have none : ((members fields).map (·.1)).filter (fun name =>
      !known.any fun other => CodePoints.ofString other == name) = [] := by
    subst all
    simp only [members, List.map_map, List.filter_eq_nil_iff, List.mem_map, List.any_map,
      Bool.not_eq_true, Bool.not_eq_false', List.any_eq_true]
    rintro _ ⟨field, member, rfl⟩
    exact ⟨field, member, beq_self_eq_true _⟩
  simp only [unknownNames, none, List.mergeSort_nil, List.map_nil]

/-- Nothing is lost in writing an object whose names differ and whose values lose nothing. -/
theorem exact_ofFields
    {fields : List (String × Json)}
    (once : (fields.map Prod.fst).Nodup)
    (exact : ∀ field ∈ fields, field.2.Exact) :
    (ofFields fields).Exact := by
  constructor
  · show ((members fields).map Prod.fst).Nodup
    have names : (members fields).map Prod.fst =
        (fields.map Prod.fst).map CodePoints.ofString := by
      rw [members, List.map_map, List.map_map]
      rfl
    rw [names]
    refine List.Pairwise.map CodePoints.ofString (fun _ _ different same => ?_) once
    exact different (CodePoints.ofString_inj.mp same)
  · show ExactMembers (members fields)
    clear once
    induction fields with
    | nil => trivial
    | cons field rest inductionHypothesis =>
        exact ⟨CodePoints.isWhole_ofString field.1, exact field List.mem_cons_self,
          inductionHypothesis fun other member => exact other (List.mem_cons_of_mem _ member)⟩

/-! ## Items -/

theorem exactItems_map
    {α : Type}
    {encode : α → Json}
    (exact : ∀ value, (encode value).Exact)
    (values : List α) :
    ExactItems (values.map encode) := by
  induction values with
  | nil => trivial
  | cons value rest inductionHypothesis =>
      exact ⟨exact value, inductionHypothesis⟩

/-- A list whose items are each decoded is decoded, and no item fails. -/
theorem decodeItems_map
    {α : Type}
    {encode : α → Json}
    {decode : Json → Except Invalid α}
    (decoded : ∀ value, decode (encode value) = .ok value)
    (position : Nat)
    (values : List α) :
    decodeItems decode position (values.map encode) = (values, []) := by
  induction values generalizing position with
  | nil => rfl
  | cons value rest inductionHypothesis =>
      simp only [List.map_cons, decodeItems, decoded, inductionHypothesis]

/-- A byte is what its number stands for. -/
theorem toByte_toNat
    (byte : UInt8) :
    toByte (.int byte.toNat) = .ok byte := by
  have small := byte.toNat_lt
  rw [toByte, if_pos ⟨by omega, by omega⟩, Int.toNat_natCast, UInt8.ofNat_toNat]

theorem toBytes_map
    (bytes : List UInt8) :
    toBytes (.arr (bytes.map fun byte => .int byte.toNat)) = .ok bytes := by
  rw [toBytes]
  induction bytes with
  | nil => rfl
  | cons byte rest inductionHypothesis =>
      rw [List.map_cons, List.mapM_cons, toByte_toNat, inductionHypothesis]
      rfl

end Json

namespace RecordObject

/-- The fields of an object. -/
def fields (object : RecordObject) : List (String × Json) :=
  [("name", .str (.ofString object.name)),
    ("data", .arr (object.data.map fun byte => .int byte.toNat))]

theorem exact_toJson
    (object : RecordObject) :
    object.toJson.Exact := by
  have byte (value : UInt8) : (Json.int value.toNat).Exact :=
    Nat.lt_of_lt_of_le value.toNat_lt (show 256 ≤ Integer.limit by decide +kernel)
  apply Json.exact_ofFields
  · show ["name", "data"].Nodup
    decide
  · simp only [List.mem_cons, List.not_mem_nil, or_false, forall_eq_or_imp, forall_eq]
    exact ⟨CodePoints.isWhole_ofString object.name, Json.exactItems_map byte object.data⟩

/-- An object is given back by its JSON value. -/
theorem ofJson_toJson
    (object : RecordObject) :
    ofJson object.toJson = .ok object := by
  have members : Json.itemMembers object.toJson = .ok (Json.members object.fields) := rfl
  have name : Assoc.get? object.fields "name" = some (.str (.ofString object.name)) := rfl
  have data : Assoc.get? object.fields "data" =
      some (.arr (object.data.map fun byte => .int byte.toNat)) := rfl
  have known : Json.unknownNames (Json.members object.fields) ["name", "data"] = [] :=
    Json.unknownNames_members rfl
  unfold ofJson
  simp only [members, Json.field_members name, Json.field_members data, known, Json.toText,
    CodePoints.toText_ofString, Json.toBytes_map, Json.single, bind, Except.bind]
  rfl

end RecordObject

namespace TestRecord

/-- The fields of a record. -/
def fields (record : TestRecord) : List (String × Json) :=
  [("args", .arr (record.args.map fun arg => .str (.ofString arg))),
    ("sym_argvs", .int record.symArgvs),
    ("sym_argv_len", .int record.symArgvLen),
    ("objects", .arr (record.objects.map RecordObject.toJson))]

/-- Nothing of a record is lost in writing if its integers have not too many digits. -/
theorem exact_toJson
    {record : TestRecord}
    (argvs : record.symArgvs.natAbs < Integer.limit)
    (argvLen : record.symArgvLen.natAbs < Integer.limit) :
    record.toJson.Exact := by
  have text (arg : String) : (Json.str (.ofString arg)).Exact := CodePoints.isWhole_ofString arg
  apply Json.exact_ofFields
  · show ["args", "sym_argvs", "sym_argv_len", "objects"].Nodup
    decide
  · simp only [List.mem_cons, List.not_mem_nil, or_false, forall_eq_or_imp, forall_eq]
    exact ⟨Json.exactItems_map text record.args, argvs, argvLen,
      Json.exactItems_map RecordObject.exact_toJson record.objects⟩

theorem argsOfJson_map
    (args : List String) :
    argsOfJson (.arr (args.map fun arg => .str (.ofString arg))) = .ok args := by
  have texts : (args.map fun arg => Json.str (.ofString arg)).map Json.toText = args := by
    rw [List.map_map]
    exact (List.map_congr_left fun arg _ => CodePoints.toText_ofString arg).trans
      (List.map_id _)
  show Except.ok (List.map Json.toText _) = _
  rw [texts]

theorem objectsOfJson_map
    (objects : List RecordObject) :
    objectsOfJson (.arr (objects.map RecordObject.toJson)) = .ok objects := by
  have decoded := Json.decodeItems_map RecordObject.ofJson_toJson 0 objects
  unfold objectsOfJson
  simp only [Json.toItems, Json.single, decoded, bind, Except.bind]
  rfl

/-- Every field is found under its name, and no name is left over. -/
theorem ofJson_toJson
    (record : TestRecord) :
    ofJson record.toJson = .ok record := by
  have members : Json.topMembers record.toJson = .ok (Json.members record.fields) := rfl
  have args : Assoc.get? record.fields "args" =
      some (.arr (record.args.map fun arg => .str (.ofString arg))) := rfl
  have argvs : Assoc.get? record.fields "sym_argvs" = some (.int record.symArgvs) := rfl
  have argvLen : Assoc.get? record.fields "sym_argv_len" = some (.int record.symArgvLen) := rfl
  have objects : Assoc.get? record.fields "objects" =
      some (.arr (record.objects.map RecordObject.toJson)) := rfl
  have known : Json.unknownNames (Json.members record.fields)
      ["args", "sym_argvs", "sym_argv_len", "objects"] = [] :=
    Json.unknownNames_members rfl
  unfold ofJson
  simp only [members, Json.fieldOr_members args, Json.fieldOr_members argvs,
    Json.fieldOr_members argvLen, Json.fieldOr_members objects, known, argsOfJson_map,
    objectsOfJson_map, Json.toInteger, Json.single, bind, Except.bind]
  rfl

/-- A record with short integers is dumped. -/
theorem dump_of_lt
    {record : TestRecord}
    (argvs : record.symArgvs.natAbs < Integer.limit)
    (argvLen : record.symArgvLen.natAbs < Integer.limit) :
    record.dump = .ok record.toJson.render := by
  have text {value : Int} (short : value.natAbs < Integer.limit) :
      (Integer.text? value).isSome = true := by
    rw [Integer.text?_eq_some_iff.2 ⟨short, rfl⟩]
    rfl
  exact if_pos ⟨text argvs, text argvLen⟩

/-- A record is dumped, and loaded as it was, unless it holds too many objects. -/
theorem load_dump
    (record : TestRecord)
    (argvs : Json.parse (Json.int record.symArgvs).render = .ok (.int record.symArgvs))
    (argvLen : Json.parse (Json.int record.symArgvLen).render = .ok (.int record.symArgvLen)) :
    ∃ text, record.dump = .ok text ∧
      load text =
        if record.objects.length ≤ limit then .ok record else .error .tooManyObjects := by
  have shortArgvs := (Json.parse_render_int_iff _).mp argvs
  have shortLen := (Json.parse_render_int_iff _).mp argvLen
  have parsed : Json.parse record.toJson.render = .ok record.toJson :=
    Json.parse_render (exact_toJson shortArgvs shortLen)
  refine ⟨record.toJson.render, dump_of_lt shortArgvs shortLen, ?_⟩
  unfold load
  rw [parsed]
  show (ofJson record.toJson).mapError Json.LoadFault.invalid >>= _ = _
  rw [ofJson_toJson]
  rfl

/-- A record with quotes, other scripts, a negative size, and an object that is empty. -/
def varied : TestRecord where
  args := ["prog", "\"\\\n", "π𝔸"]
  symArgvs := -3
  symArgvLen := 4096
  objects := [{ name := "", data := [] }, { name := "arg00", data := [0, 34, 127, 255] }]

/-- A record with one object too many. -/
def crowded : TestRecord where
  objects := List.replicate (limit + 1) { name := "x", data := [1] }

theorem load_dump_varied :
    (∃ text, varied.dump = .ok text ∧ load text = .ok varied) ∧
      ∃ text, crowded.dump = .ok text ∧ load text = .error .tooManyObjects := by
  have reads (value : Int) (few : value.natAbs < Integer.limit) :=
    (Json.parse_render_int_iff value).mpr few
  constructor
  · exact load_dump varied (reads _ (by decide +kernel)) (reads _ (by decide +kernel))
  · exact load_dump crowded (reads _ (by decide +kernel)) (reads _ (by decide +kernel))

end TestRecord

end Diverge
