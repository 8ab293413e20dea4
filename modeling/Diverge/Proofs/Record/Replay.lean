import Mathlib.Data.Nat.Digits.Defs
import Mathlib.Tactic.LinearCombination
import Diverge.Proofs.Record.Arguments
import Diverge.Proofs.Words

/-!
# Records that describe their replay

A record is replayed under its own arguments, which announce the objects that it holds.  The two
lists are filled by different steps: arguments and variables become objects when they are added,
files and streams when the record is built, and the record may be full at any of these steps.

An inventory says what a record has to hold for what was added, apart from the builder
(`Inventory.Accounts`).  Building gives the record of such an inventory exactly when there is room
for all of its objects, provided that the variables are not too large to be made
(`Addition.assemble_inventory`).
-/

namespace Diverge

open Stateful

/-! ## What is added -/

/-- What becomes an object as soon as it is added. -/
inductive Entry where
  | argument (value : Argument)
  /-- A variable of a number of bytes. -/
  | named (name : String) (size value : Int)

namespace Addition

def entries : Addition → List Entry
  | .argument value => [.argument value]
  | .arguments values => values.map .argument
  | .named name size value => [.named name size value]
  | .file _ | .stdin _ | .stdout _ => []

def files : Addition → List (List UInt8)
  | .file content => [content]
  | .argument _ | .arguments _ | .named _ _ _ | .stdin _ | .stdout _ => []

def stdins : Addition → List (List UInt8)
  | .stdin content => [content]
  | .argument _ | .arguments _ | .named _ _ _ | .file _ | .stdout _ => []

def stdouts : Addition → List (List UInt8)
  | .stdout content => [content]
  | .argument _ | .arguments _ | .named _ _ _ | .file _ | .stdin _ => []

/-- The sizes of variables. -/
def sizes : Addition → List Int
  | .named _ size _ => [size]
  | .argument _ | .arguments _ | .file _ | .stdin _ | .stdout _ => []

/-- Objects for all that is added, and one for the version. -/
def objectCount (additions : List Addition) : Nat :=
  (additions.flatMap entries).length + (additions.flatMap files).length +
    (additions.flatMap stdins).length + (additions.flatMap stdouts).length + 1

/-- No size is negative, and each stream is given at most once. -/
structure Regular (additions : List Addition) : Prop where
  sized : ∀ size ∈ additions.flatMap sizes, 0 ≤ size
  stdinOnce : (additions.flatMap stdins).length ≤ 1
  stdoutOnce : (additions.flatMap stdouts).length ≤ 1

/-- No variable is too large to be made. -/
def Makeable (additions : List Addition) : Prop :=
  ∀ size ∈ additions.flatMap sizes, ByteCount.checkShift 1 (8 * size.toNat) = .ok ()

/-- Add everything, then build the record. -/
def assemble (additions : List Addition) : BuilderM TestRecord := do
  additions.forM run
  Builder.build

theorem Regular.of_append
    {first rest : List Addition}
    (regular : Regular (first ++ rest)) :
    Regular first := by
  obtain ⟨sized, stdinOnce, stdoutOnce⟩ := regular
  rw [List.flatMap_append] at sized
  rw [List.flatMap_append, List.length_append] at stdinOnce stdoutOnce
  exact ⟨fun size member => sized size (List.mem_append_left _ member), by omega, by omega⟩

theorem Makeable.of_append
    {first rest : List Addition}
    (makeable : Makeable (first ++ rest)) :
    Makeable first := by
  intro size member
  apply makeable size
  rw [List.flatMap_append]
  exact List.mem_append_left _ member

end Addition

/-! ## What a record holds -/

namespace Entry

def isArgument : Entry → Bool
  | .argument _ => true
  | .named _ _ _ => false

/-- An argument ends in a zero byte; the bytes of a variable are its value, least significant
first, modulo what so many bytes can hold. -/
def IsHeldBy : Entry → RecordObject → Prop
  | .argument value, object => object.data = value.encoded ++ [0]
  | .named name size value, object =>
      object.name = name ∧ (object.data.length : Int) = size ∧
        ((Nat.ofDigits 256 (object.data.map UInt8.toNat) : Nat) : Int) =
          value % 2 ^ (8 * size.toNat)

/-- How an object is announced: an argument by its size without the zero byte. -/
def words : Entry → RecordObject → List String
  | .argument _, object => ["-sym-arg", toString (object.data.length - 1)]
  | .named _ _ _, _ => []

end Entry

/-- The objects of a record, each with what it stands for. -/
structure Inventory where
  given : List (Entry × RecordObject)
  files : List (List UInt8 × RecordObject)
  /-- The size of every file. -/
  fileSize : Nat
  stdin : List (List UInt8 × RecordObject)
  stdout : List (List UInt8 × RecordObject)

namespace Inventory

def objects (inventory : Inventory) : List RecordObject :=
  inventory.given.map (·.2) ++ inventory.files.map (·.2) ++ inventory.stdin.map (·.2) ++
    inventory.stdout.map (·.2) ++ [{ name := "model_version", data := Builder.version }]

def args (inventory : Inventory) (program : String) : List String :=
  program :: inventory.given.flatMap (fun pair => pair.1.words pair.2) ++
    (if inventory.files = [] then []
      else ["-sym-files", toString inventory.files.length, toString inventory.fileSize]) ++
    inventory.stdin.flatMap (fun pair => ["-sym-stdin", toString pair.2.data.length]) ++
    inventory.stdout.flatMap fun _ => ["-sym-stdout"]

/-- The record with these objects, announced among its arguments. -/
def record (inventory : Inventory) (program : String) : TestRecord :=
  { args := inventory.args program, objects := inventory.objects }

/-- The objects stand for all that was added, in order, and hold it. -/
structure Accounts (inventory : Inventory) (additions : List Addition) : Prop where
  given : inventory.given.map (·.1) = additions.flatMap Addition.entries
  files : inventory.files.map (·.1) = additions.flatMap Addition.files
  stdin : inventory.stdin.map (·.1) = additions.flatMap Addition.stdins
  stdout : inventory.stdout.map (·.1) = additions.flatMap Addition.stdouts
  held : ∀ pair ∈ inventory.given, pair.1.IsHeldBy pair.2
  argumentNames : ∃ count,
    (inventory.given.filter (·.1.isArgument)).map (·.2.name) =
      (List.range count).map Builder.argName
  fileNames : inventory.files.map (·.2.name) =
    (List.range inventory.files.length).map Builder.fileName
  fileHeld : ∀ pair ∈ inventory.files, pair.2.data.length = inventory.fileSize ∧
    ∃ zeros, pair.2.data = pair.1 ++ List.replicate zeros 0
  stdinHeld : ∀ pair ∈ inventory.stdin, pair.2 = { name := "stdin", data := pair.1 }
  stdoutHeld : ∀ pair ∈ inventory.stdout, pair.2.name = "stdout" ∧ pair.2.data.length = 1024 ∧
    ∃ zeros, pair.2.data = pair.1.take 1024 ++ List.replicate zeros 0

/-- An inventory has as many objects as the additions call for. -/
theorem Accounts.length_objects
    {inventory : Inventory}
    {additions : List Addition}
    (accounts : inventory.Accounts additions) :
    inventory.objects.length = Addition.objectCount additions := by
  rw [Addition.objectCount, ← accounts.given, ← accounts.files, ← accounts.stdin,
    ← accounts.stdout]
  simp only [objects, List.length_append, List.length_map, List.length_singleton]

end Inventory

/-! ## Bytes -/

namespace Builder

theorem length_littleEndian
    (size : Nat)
    (value : Int) :
    (littleEndian size value).length = size := by
  induction size generalizing value with
  | zero => rfl
  | succ size inductionHypothesis =>
      rw [littleEndian, List.length_cons, inductionHypothesis]

/-- A remainder is taken byte by byte. -/
theorem emod_add_emod_ediv
    (value : Int)
    {modulus : Int}
    (positive : 0 < modulus) :
    value % 256 + 256 * (value / 256 % modulus) = value % (256 * modulus) := by
  have parts : value =
      value % 256 + 256 * (value / 256 % modulus) + 256 * modulus * (value / 256 / modulus) := by
    have low := Int.emod_add_mul_ediv value 256
    have high := Int.emod_add_mul_ediv (value / 256) modulus
    linear_combination -low - 256 * high
  have lowRange := Int.emod_lt_of_pos value (by decide : (0 : Int) < 256)
  have lowNonneg := Int.emod_nonneg value (by decide : (256 : Int) ≠ 0)
  have highRange := Int.emod_lt_of_pos (value / 256) positive
  have highNonneg := Int.emod_nonneg (value / 256) (Int.ne_of_gt positive)
  calc
    _ = (value % 256 + 256 * (value / 256 % modulus)) % (256 * modulus) :=
        (Int.emod_eq_of_lt (by omega) (by omega)).symm
    _ = (value % 256 + 256 * (value / 256 % modulus) +
          256 * modulus * (value / 256 / modulus)) % (256 * modulus) :=
        (Int.add_mul_emod_self_left _ _ _).symm
    _ = value % (256 * modulus) := congrArg (· % (256 * modulus)) parts.symm

/-- The bytes of a variable are its value modulo a power of two, least significant first. -/
theorem ofDigits_littleEndian
    (size : Nat)
    (value : Int) :
    ((Nat.ofDigits 256 ((littleEndian size value).map UInt8.toNat) : Nat) : Int) =
      value % 2 ^ (8 * size) := by
  induction size generalizing value with
  | zero => simp [littleEndian]
  | succ size inductionHypothesis =>
      have low : (UInt8.ofNat (value % 256).toNat).toNat = (value % 256).toNat := by
        rw [UInt8.toNat_ofNat']
        omega
      have power : (2 : Int) ^ (8 * (size + 1)) = 256 * 2 ^ (8 * size) := by
        rw [Nat.mul_add, pow_add]
        ring
      rw [littleEndian, List.map_cons, Nat.ofDigits_cons, low, power]
      rw [Int.natCast_add, Int.natCast_mul, inductionHypothesis,
        ← emod_add_emod_ediv value (by positivity),
        Int.toNat_of_nonneg (Int.emod_nonneg value (by decide))]
      rfl

theorem length_padTo
    {size : Nat}
    {content : List UInt8}
    (fits : content.length ≤ size) :
    (padTo size content).length = size := by
  rw [padTo, List.length_append, List.length_replicate]
  omega

/-- The fold of `largest` is not below its start, nor below the length of any file. -/
theorem le_foldl_max
    (files : List (List UInt8))
    (size : Nat) :
    size ≤ files.foldl (fun size content => max size content.length) size ∧
      ∀ content ∈ files,
        content.length ≤ files.foldl (fun size content => max size content.length) size := by
  induction files generalizing size with
  | nil => exact ⟨Nat.le_refl _, fun _ member => nomatch member⟩
  | cons first rest inductionHypothesis =>
      obtain ⟨start, others⟩ := inductionHypothesis (max size first.length)
      refine ⟨Nat.le_trans (Nat.le_max_left _ _) start, fun content member => ?_⟩
      rcases List.mem_cons.mp member with rfl | member
      · exact Nat.le_trans (Nat.le_max_right _ _) start
      · exact others content member

/-- No file is larger than the largest. -/
theorem length_le_largest
    {files : List (List UInt8)}
    {content : List UInt8}
    (member : content ∈ files) :
    content.length ≤ largest files :=
  (le_foldl_max files 0).2 content member

end Builder

/-! ## Room for objects -/

/-- The record is refused for want of room. -/
def TestRecord.Overfull (count : Nat) (fault : RecordFault) : Prop :=
  fault = .tooManyObjects ∧ limit < count

theorem TestRecord.Overfull.mono
    {count more : Nat}
    {fault : RecordFault}
    (overfull : Overfull count fault)
    (fewer : count ≤ more) :
    Overfull more fault :=
  ⟨overfull.1, Nat.lt_of_lt_of_le overfull.2 fewer⟩

/-- The record with more objects and more arguments. -/
def TestRecord.extended
    (record : TestRecord)
    (objects : List RecordObject)
    (words : List String) : TestRecord :=
  { record with args := record.args ++ words, objects := record.objects ++ objects }

namespace Builder

open TestRecord (limit Overfull)

variable {builder : Builder} {objects others : List RecordObject} {words otherWords : List String}

/-- A step that extends the record, if there is room, and changes nothing else. -/
def Extends
    (action : BuilderM Unit)
    (objects : List RecordObject)
    (words : List String) : Prop :=
  ∀ builder : Builder, builder.record.objects.length ≤ limit →
    Ends action builder
      (fun _ later =>
        later = { builder with record := builder.record.extended objects words } ∧
          builder.record.objects.length + objects.length ≤ limit)
      (Overfull (builder.record.objects.length + objects.length))

/-- Go on after the record was extended. -/
theorem Extends.ends_bind
    {action : BuilderM Unit}
    (extending : Extends action objects words)
    (room : builder.record.objects.length ≤ limit)
    {α : Type}
    {next : Unit → BuilderM α}
    {after : α → Builder → Prop}
    {failing : RecordFault → Prop}
    (rest : builder.record.objects.length + objects.length ≤ limit →
      Ends (next ()) { builder with record := builder.record.extended objects words } after failing)
    (fails : ∀ fault, Overfull (builder.record.objects.length + objects.length) fault →
      failing fault) :
    Ends (action >>= next) builder after failing := by
  apply Ends.bind
  refine (extending builder room).mono ?_ fails
  rintro _ _ ⟨rfl, roomLater⟩
  exact rest roomLater

theorem extends_pure :
    Extends (pure ()) [] [] := by
  intro builder room
  apply Ends.pure
  refine ⟨?_, room⟩
  unfold TestRecord.extended
  rw [List.append_nil, List.append_nil]

theorem extends_announce
    (words : List String) :
    Extends (announce words) [] words := by
  intro builder room
  apply Ends.modify
  refine ⟨?_, room⟩
  unfold TestRecord.extended
  rw [List.append_nil]

theorem extends_push
    (name : String)
    (data : List UInt8) :
    Extends (push name data) [{ name, data }] [] := by
  intro builder room
  unfold push TestRecord.push
  apply Ends.get_bind
  apply Ends.bind
  apply Ends.ofExcept
  · intro record pushed
    split at pushed
    next space =>
        cases pushed
        apply Ends.modify
        refine ⟨?_, space⟩
        unfold TestRecord.extended
        rw [List.append_nil]
    next => cases pushed
  · intro fault refused
    split at refused
    next => cases refused
    next full =>
        cases refused
        exact ⟨rfl, Nat.lt_succ_of_le (Nat.le_of_not_lt full)⟩

/-- What is added by two actions in turn is added by both. -/
theorem Extends.andThen
    {action next : BuilderM Unit}
    (first : Extends action objects words)
    (second : Extends next others otherWords) :
    Extends (action >>= fun _ => next) (objects ++ others) (words ++ otherWords) := by
  intro builder room
  rw [List.length_append, ← Nat.add_assoc]
  apply first.ends_bind room
  · intro roomLater
    have extended := second { builder with record := builder.record.extended objects words }
    simp only [TestRecord.extended, List.length_append, List.append_assoc] at extended ⊢
    exact extended roomLater
  · intro fault overfull
    exact overfull.mono (Nat.le_add_right _ _)

/-! ## Files and streams -/

/-- The object of each file, filled up to the size of the largest. -/
def fileObjects (files : List (List UInt8)) : List (List UInt8 × RecordObject) :=
  files.mapIdx fun index content =>
    (content, { name := fileName index, data := padTo (largest files) content })

def stdinObjects (stdin : Option (List UInt8)) : List (List UInt8 × RecordObject) :=
  stdin.toList.map fun content => (content, { name := "stdin", data := content })

/-- The object of standard output, cut or filled up to its size. -/
def stdoutObjects (stdout : Option (List UInt8)) : List (List UInt8 × RecordObject) :=
  stdout.toList.map fun content =>
    (content, { name := "stdout", data := padTo stdoutSize (content.take stdoutSize) })

theorem extends_pushFrom
    (size position : Nat)
    (files : List (List UInt8)) :
    Extends (pushFrom size position files)
      (files.mapIdx fun index content =>
        { name := fileName (position + index), data := padTo size content }) [] := by
  induction files generalizing position with
  | nil => exact extends_pure
  | cons content rest inductionHypothesis =>
      have shifted : ∀ index, position + 1 + index = position + (index + 1) :=
        fun index => Nat.add_right_comm position 1 index
      have further := inductionHypothesis (position + 1)
      simp only [shifted] at further
      rw [List.mapIdx_cons]
      exact (extends_push (fileName position) (padTo size content)).andThen further

/-- Files are added with the words that tell their number and size, if there are any. -/
theorem extends_pushFiles
    (files : List (List UInt8)) :
    Extends (pushFiles files) ((fileObjects files).map (·.2))
      (if fileObjects files = [] then []
        else ["-sym-files", toString (fileObjects files).length, toString (largest files)]) := by
  have objects : (fileObjects files).map (·.2) =
      files.mapIdx fun index content =>
        { name := fileName (0 + index), data := padTo (largest files) content } := by
    apply List.ext_getElem
    · simp [fileObjects]
    · simp [fileObjects]
  have length : (fileObjects files).length = files.length := List.length_mapIdx
  rw [objects, length]
  cases files with
  | nil => exact extends_pure
  | cons content rest =>
      rw [if_neg (by simp [fileObjects]), ← List.append_nil (List.mapIdx _ _)]
      exact (extends_pushFrom (largest (content :: rest)) 0 (content :: rest)).andThen
        (extends_announce _)

theorem extends_pushStdin
    (stdin : Option (List UInt8)) :
    Extends (pushStdin stdin) ((stdinObjects stdin).map (·.2))
      ((stdinObjects stdin).flatMap fun pair =>
        ["-sym-stdin", toString pair.2.data.length]) := by
  cases stdin with
  | none => exact extends_pure
  | some content => exact (extends_push "stdin" content).andThen (extends_announce _)

theorem extends_pushStdout
    (stdout : Option (List UInt8)) :
    Extends (pushStdout stdout) ((stdoutObjects stdout).map (·.2))
      ((stdoutObjects stdout).flatMap fun _ => ["-sym-stdout"]) := by
  cases stdout with
  | none => exact extends_pure
  | some content => exact (extends_push "stdout" _).andThen (extends_announce _)

/-! ## Arguments and variables -/

/-- The record in the making holds what was given so far, and nothing else. -/
structure Lists
    (program : String) (given : List (Entry × RecordObject)) (builder : Builder) : Prop where
  record : builder.record =
    { args := program :: given.flatMap fun pair => pair.1.words pair.2,
      objects := given.map (·.2) }
  held : ∀ pair ∈ given, pair.1.IsHeldBy pair.2
  argumentNames : (given.filter (·.1.isArgument)).map (·.2.name) =
    (List.range builder.argCount).map argName
  room : given.length ≤ limit

/-- Files and streams are as they were. -/
structure SameStreams (before after : Builder) : Prop where
  files : after.files = before.files
  stdin : after.stdin = before.stdin
  stdout : after.stdout = before.stdout

/-- A step that gives some entries, if there is room. -/
def Gives (program : String) (action : BuilderM Unit) (entries : List Entry) : Prop :=
  ∀ (builder : Builder) (given : List (Entry × RecordObject)), builder.Lists program given →
    Ends action builder
      (fun _ later => builder.SameStreams later ∧
        ∃ more, more.map (·.1) = entries ∧ later.Lists program (given ++ more))
      (Overfull (given.length + entries.length))

variable {program : String} {given : List (Entry × RecordObject)}

theorem lists_start
    (program : String) :
    Lists program [] (start program) where
  record := rfl
  held := fun _ member => nomatch member
  argumentNames := rfl
  room := Nat.zero_le _

theorem Lists.length_objects
    (lists : builder.Lists program given) :
    builder.record.objects.length = given.length := by
  rw [lists.record, List.length_map]

theorem Lists.length_objects_le
    (lists : builder.Lists program given) :
    builder.record.objects.length ≤ limit :=
  lists.length_objects ▸ lists.room

/-- A builder that lists entries lists one more after its object was added. -/
theorem Lists.extended
    (lists : builder.Lists program given)
    {entry : Entry}
    {object : RecordObject}
    (held : entry.IsHeldBy object)
    (room : given.length + 1 ≤ limit)
    {later : Builder}
    (record : later.record = builder.record.extended [object] (entry.words object))
    (argumentNames : ((given ++ [(entry, object)]).filter (·.1.isArgument)).map (·.2.name) =
      (List.range later.argCount).map argName) :
    later.Lists program (given ++ [(entry, object)]) := by
  constructor
  · rw [record, lists.record]
    simp [TestRecord.extended]
  · intro pair member
    rcases List.mem_append.mp member with before | new
    · exact lists.held pair before
    · rw [List.mem_singleton.mp new]
      exact held
  · exact argumentNames
  · rw [List.length_append]
    exact room

/-- An argument is named by the counter, and announced without the zero byte. -/
theorem gives_addArgument
    (program : String)
    (value : Argument) :
    Gives program (addArgument value) [.argument value] := by
  intro builder given lists
  let object : RecordObject :=
    { name := argName builder.argCount, data := value.encoded ++ [0] }
  have names :
      ((given ++ [(Entry.argument value, object)]).filter (·.1.isArgument)).map (·.2.name) =
        (List.range (builder.argCount + 1)).map argName := by
    rw [List.filter_append, List.map_append, lists.argumentNames, List.range_succ,
      List.map_append]
    rfl
  have held : (Entry.argument value).IsHeldBy object := rfl
  have size : value.encoded.length = object.data.length - 1 := by
    rw [List.length_append]
    rfl
  unfold addArgument
  rw [size, ← lists.length_objects]
  apply Ends.get_bind
  apply Ends.bind
  apply Ends.modify
  apply (extends_push _ _).ends_bind
  · exact lists.length_objects_le
  · intro room
    apply Ends.bind
    apply Ends.modify
    apply Ends.modify
    refine ⟨⟨rfl, rfl, rfl⟩, [(.argument value, object)], rfl,
      lists.extended held (lists.length_objects ▸ room) ?_ names⟩
    unfold TestRecord.extended
    rw [List.append_nil]
    rfl
  · exact fun _ => id

/-- A variable whose bytes can be made is added, if there is room. -/
theorem gives_addVariable
    (program name : String)
    {size : Int}
    (sized : 0 ≤ size)
    (makeable : ByteCount.checkShift 1 (8 * size.toNat) = .ok ())
    (value : Int) :
    Gives program (addVariable name size value) [.named name size value] := by
  intro builder given lists
  have names : ∀ object : RecordObject,
      ((given ++ [(Entry.named name size value, object)]).filter (·.1.isArgument)).map (·.2.name) =
        (List.range builder.argCount).map argName := by
    intro object
    rw [List.filter_append, List.map_append, lists.argumentNames]
    exact List.append_nil _
  have held : (Entry.named name size value).IsHeldBy
      { name, data := littleEndian size.toNat value } := by
    refine ⟨rfl, ?_, ofDigits_littleEndian size.toNat value⟩
    rw [length_littleEndian, Int.toNat_of_nonneg sized]
  unfold addVariable
  rw [if_neg (Int.not_lt.mpr sized), makeable, ← lists.length_objects]
  refine (extends_push _ _ builder lists.length_objects_le).mono ?_ fun _ => id
  rintro _ _ ⟨rfl, room⟩
  exact ⟨⟨rfl, rfl, rfl⟩, [(.named name size value, _)], rfl,
    lists.extended held (lists.length_objects ▸ room) rfl (names _)⟩

theorem gives_nothing
    (program : String) :
    Gives program (pure ()) [] :=
  fun _ given lists =>
    Ends.pure ⟨⟨rfl, rfl, rfl⟩, [], rfl, (List.append_nil given).symm ▸ lists⟩

/-- Two actions give what each of them gives, in turn. -/
theorem Gives.andThen
    {action next : BuilderM Unit}
    {entries others : List Entry}
    (first : Gives program action entries)
    (second : Gives program next others) :
    Gives program (action >>= fun _ => next) (entries ++ others) := by
  intro builder given lists
  rw [List.length_append, ← Nat.add_assoc]
  apply Ends.bind
  refine (first builder given lists).mono ?_ fun _ overfull =>
    overfull.mono (Nat.le_add_right _ _)
  rintro _ middle ⟨same, more, rfl, listsNext⟩
  have count : (given ++ more).length = given.length + (more.map (·.1)).length := by
    rw [List.length_append, List.length_map]
  rw [← count]
  refine (second middle _ listsNext).mono ?_ fun _ => id
  rintro _ later ⟨sameToo, further, rfl, listsLater⟩
  refine ⟨⟨sameToo.files.trans same.files, sameToo.stdin.trans same.stdin,
    sameToo.stdout.trans same.stdout⟩, more ++ further, List.map_append, ?_⟩
  rw [← List.append_assoc]
  exact listsLater

theorem gives_addArguments
    (program : String)
    (values : List Argument) :
    Gives program (addArguments values) (values.map .argument) := by
  induction values with
  | nil => exact gives_nothing program
  | cons value rest inductionHypothesis =>
      exact (gives_addArgument program value).andThen inductionHypothesis

/-! ## The run -/

/-- The builder has taken in what was added: arguments and variables as objects, the rest as it
is. -/
structure Follows (program : String) (additions : List Addition) (builder : Builder) : Prop where
  given : ∃ given, given.map (·.1) = additions.flatMap Addition.entries ∧
    builder.Lists program given
  files : builder.files = additions.flatMap Addition.files
  stdin : builder.stdin.toList = additions.flatMap Addition.stdins
  stdout : builder.stdout.toList = additions.flatMap Addition.stdouts

variable {additions : List Addition}

theorem follows_start
    (program : String) :
    Follows program [] (start program) where
  given := ⟨[], rfl, lists_start program⟩
  files := rfl
  stdin := rfl
  stdout := rfl

theorem Follows.length_le
    (follows : builder.Follows program additions) :
    (additions.flatMap Addition.entries).length ≤ limit := by
  obtain ⟨given, entries, lists⟩ := follows.given
  rw [← entries, List.length_map]
  exact lists.room

/-- A builder that follows the additions follows one more. -/
theorem Follows.step
    (follows : builder.Follows program additions)
    {addition : Addition}
    {later : Builder}
    (given : ∃ given, given.map (·.1) = additions.flatMap Addition.entries ++ addition.entries ∧
      later.Lists program given)
    (files : later.files = builder.files ++ addition.files)
    (stdin : later.stdin.toList = builder.stdin.toList ++ addition.stdins)
    (stdout : later.stdout.toList = builder.stdout.toList ++ addition.stdouts) :
    later.Follows program (additions ++ [addition]) := by
  constructor
  · rw [List.flatMap_append, List.flatMap_singleton]
    exact given
  · rw [List.flatMap_append, List.flatMap_singleton, files, follows.files]
  · rw [List.flatMap_append, List.flatMap_singleton, stdin, follows.stdin]
  · rw [List.flatMap_append, List.flatMap_singleton, stdout, follows.stdout]

/-- What only gives entries leaves files and streams as they are. -/
theorem Follows.ends_gives
    (follows : builder.Follows program additions)
    {addition : Addition}
    (gives : Gives program addition.run addition.entries)
    (noFile : addition.files = [])
    (noStdin : addition.stdins = [])
    (noStdout : addition.stdouts = []) :
    Ends addition.run builder (fun _ later => later.Follows program (additions ++ [addition]))
      (Overfull ((additions ++ [addition]).flatMap Addition.entries).length) := by
  obtain ⟨given, entries, lists⟩ := follows.given
  have count : ((additions ++ [addition]).flatMap Addition.entries).length =
      given.length + addition.entries.length := by
    rw [List.flatMap_append, List.flatMap_singleton, List.length_append, ← entries,
      List.length_map]
  rw [count]
  refine (gives builder given lists).mono ?_ fun _ => id
  rintro _ later ⟨same, more, added, listsLater⟩
  apply follows.step
  · exact ⟨given ++ more, by rw [List.map_append, entries, added], listsLater⟩
  · rw [same.files, noFile, List.append_nil]
  · rw [same.stdin, noStdin, List.append_nil]
  · rw [same.stdout, noStdout, List.append_nil]

/-- What gives no entry leaves the record as it is. -/
theorem Follows.keeps_given
    (follows : builder.Follows program additions)
    {later : Builder}
    (record : later.record = builder.record)
    (argCount : later.argCount = builder.argCount) :
    ∃ given, given.map (·.1) = additions.flatMap Addition.entries ++ [] ∧
      later.Lists program given := by
  obtain ⟨given, entries, lists⟩ := follows.given
  refine ⟨given, by rw [List.append_nil, entries], ?_⟩
  exact ⟨record.trans lists.record, lists.held, argCount ▸ lists.argumentNames, lists.room⟩

/-- A stream that is given at most once was not given before. -/
theorem eq_none_of_once
    {stream : Option (List UInt8)}
    {content : List UInt8}
    (once : (stream.toList ++ [content]).length ≤ 1) :
    stream = none := by
  cases stream with
  | none => rfl
  | some earlier => exact absurd once (Nat.not_succ_le_self 1)

/-- One addition is taken in, or the record has no room for what it gives. -/
theorem Follows.ends_run
    (follows : builder.Follows program additions)
    {addition : Addition}
    (regular : Addition.Regular (additions ++ [addition]))
    (makeable : Addition.Makeable (additions ++ [addition])) :
    Ends addition.run builder (fun _ later => later.Follows program (additions ++ [addition]))
      (Overfull ((additions ++ [addition]).flatMap Addition.entries).length) := by
  cases addition with
  | argument value => exact follows.ends_gives (gives_addArgument program value) rfl rfl rfl
  | arguments values => exact follows.ends_gives (gives_addArguments program values) rfl rfl rfl
  | named name size value =>
      have member :
          size ∈ (additions ++ [Addition.named name size value]).flatMap Addition.sizes := by
        rw [List.flatMap_append]
        exact List.mem_append_right _ List.mem_cons_self
      exact follows.ends_gives
        (gives_addVariable program name (regular.sized size member) (makeable size member) value)
        rfl rfl rfl
  | file content =>
      exact Ends.modify (follows.step (follows.keeps_given rfl rfl) rfl
        (List.append_nil _).symm (List.append_nil _).symm)
  | stdin content =>
      have once := regular.stdinOnce
      rw [List.flatMap_append, ← follows.stdin] at once
      have absent := eq_none_of_once once
      show Ends (addStdin content) builder _ _
      unfold addStdin
      apply Ends.get_bind
      rw [absent]
      exact Ends.modify (follows.step (follows.keeps_given rfl rfl) (List.append_nil _).symm
        (by rw [absent]; rfl) (List.append_nil _).symm)
  | stdout content =>
      have once := regular.stdoutOnce
      rw [List.flatMap_append, ← follows.stdout] at once
      have absent := eq_none_of_once once
      show Ends (addStdout content) builder _ _
      unfold addStdout
      apply Ends.get_bind
      rw [absent]
      exact Ends.modify (follows.step (follows.keeps_given rfl rfl) (List.append_nil _).symm
        (List.append_nil _).symm (by rw [absent]; rfl))

/-- Additions are taken in one after another until the record has no room. -/
theorem Follows.ends_forM
    {before after : List Addition}
    (follows : builder.Follows program before)
    (regular : Addition.Regular (before ++ after))
    (makeable : Addition.Makeable (before ++ after)) :
    Ends (after.forM Addition.run) builder
      (fun _ later => later.Follows program (before ++ after))
      (Overfull ((before ++ after).flatMap Addition.entries).length) := by
  induction after generalizing before builder with
  | nil =>
      rw [List.append_nil]
      exact Ends.pure follows
  | cons addition rest inductionHypothesis =>
      rw [List.append_cons before addition rest] at regular makeable ⊢
      apply Ends.bind
      refine (follows.ends_run regular.of_append makeable.of_append).mono ?_ ?_
      · intro _ middle followsNext
        exact inductionHypothesis followsNext regular makeable
      · intro _ overfull
        rw [List.flatMap_append, List.length_append]
        exact overfull.mono (Nat.le_add_right _ _)

/-! ## The record that is built -/

/-- What the record holds once it is built. -/
def inventory (builder : Builder) (given : List (Entry × RecordObject)) : Inventory where
  given
  files := fileObjects builder.files
  fileSize := largest builder.files
  stdin := stdinObjects builder.stdin
  stdout := stdoutObjects builder.stdout

/-- A file is padded with zeros to the size of the largest. -/
theorem mem_fileObjects
    {files : List (List UInt8)}
    {pair : List UInt8 × RecordObject}
    (member : pair ∈ fileObjects files) :
    pair.2.data.length = largest files ∧
      ∃ zeros, pair.2.data = pair.1 ++ List.replicate zeros 0 := by
  obtain ⟨index, below, rfl⟩ := List.mem_mapIdx.mp member
  exact ⟨length_padTo (length_le_largest (List.getElem_mem below)), _, rfl⟩

/-- Standard output is cut or padded to its fixed size. -/
theorem mem_stdoutObjects
    {stdout : Option (List UInt8)}
    {pair : List UInt8 × RecordObject}
    (member : pair ∈ stdoutObjects stdout) :
    pair.2.name = "stdout" ∧ pair.2.data.length = 1024 ∧
      ∃ zeros, pair.2.data = pair.1.take 1024 ++ List.replicate zeros 0 := by
  obtain ⟨content, _, rfl⟩ := List.mem_map.mp member
  exact ⟨rfl, length_padTo (List.length_take_le _ _), _, rfl⟩

/-- What a builder has gathered accounts for the additions. -/
theorem Follows.accounts
    (follows : builder.Follows program additions)
    {given : List (Entry × RecordObject)}
    (entries : given.map (·.1) = additions.flatMap Addition.entries)
    (lists : builder.Lists program given) :
    (builder.inventory given).Accounts additions where
  given := entries
  files := by
    rw [← follows.files]
    apply List.ext_getElem
    · simp [inventory, fileObjects]
    · simp [inventory, fileObjects]
  stdin := by
    rw [← follows.stdin, inventory, stdinObjects, List.map_map]
    exact List.map_id _
  stdout := by
    rw [← follows.stdout, inventory, stdoutObjects, List.map_map]
    exact List.map_id _
  held := lists.held
  argumentNames := ⟨_, lists.argumentNames⟩
  fileNames := by
    apply List.ext_getElem
    · simp
    · simp [inventory, fileObjects]
  fileHeld := fun _ member => mem_fileObjects member
  stdinHeld := by
    intro pair member
    obtain ⟨content, _, rfl⟩ := List.mem_map.mp member
    rfl
  stdoutHeld := fun _ member => mem_stdoutObjects member

/-- Building adds files, standard input, standard output and the version, in this order. -/
theorem build_eq :
    build = (do
      let builder ← get
      (do
        pushFiles builder.files
        pushStdin builder.stdin
        pushStdout builder.stdout
        push "model_version" version)
      pure (← get).record) := by
  simp only [build, bind_assoc]

/-- Building extends the record by all that its inventory holds besides what was given. -/
theorem Lists.extends_inventory
    (lists : builder.Lists program given) :
    ∃ objects words,
      Extends (do
        pushFiles builder.files
        pushStdin builder.stdin
        pushStdout builder.stdout
        push "model_version" version) objects words ∧
      builder.record.extended objects words = (builder.inventory given).record program := by
  refine ⟨_, _, (extends_pushFiles _).andThen ((extends_pushStdin _).andThen
    ((extends_pushStdout _).andThen (extends_push _ _))), ?_⟩
  rw [lists.record]
  simp [TestRecord.extended, Inventory.record, Inventory.objects, Inventory.args, inventory]

/-- Building ends with a record that accounts for the additions, or the record is overfull. -/
theorem Follows.ends_build
    (follows : builder.Follows program additions) :
    Ends build builder
      (fun record _ => Addition.objectCount additions ≤ limit ∧
        ∃ inventory : Inventory, inventory.Accounts additions ∧ record = inventory.record program)
      (Overfull (Addition.objectCount additions)) := by
  obtain ⟨given, entries, lists⟩ := follows.given
  obtain ⟨objects, words, extending, record⟩ := lists.extends_inventory
  have accounts := follows.accounts entries lists
  have count : Addition.objectCount additions =
      builder.record.objects.length + objects.length := by
    rw [← accounts.length_objects, ← List.length_append]
    exact congrArg (·.objects.length) record.symm
  rw [build_eq, count]
  apply Ends.get_bind
  apply extending.ends_bind lists.length_objects_le
  · intro room
    apply Ends.get_bind
    exact Ends.pure ⟨room, builder.inventory given, accounts, record⟩
  · exact fun _ => id

end Builder

/-! ## Assembly -/

namespace Addition

open TestRecord (limit Overfull)

variable {additions : List Addition}

/-- All additions are made, or there are too many arguments and variables for a record. -/
theorem ends_forM
    (program : String)
    (regular : Regular additions)
    (makeable : Makeable additions) :
    Ends (additions.forM run) (Builder.start program)
      (fun _ builder => builder.Follows program additions)
      (Overfull (additions.flatMap entries).length) :=
  (Builder.follows_start program).ends_forM regular makeable

/-- The same for additions and building together. -/
theorem ends_assemble
    (program : String)
    (regular : Regular additions)
    (makeable : Makeable additions) :
    Ends (assemble additions) (Builder.start program)
      (fun record _ => objectCount additions ≤ limit ∧
        ∃ inventory : Inventory, inventory.Accounts additions ∧ record = inventory.record program)
      (Overfull (objectCount additions)) := by
  apply Ends.bind
  refine (ends_forM program regular makeable).mono ?_ ?_
  · exact fun _ _ follows => follows.ends_build
  · intro _ overfull
    refine overfull.mono ?_
    rw [objectCount]
    omega

/-- A variable that is too large fails as soon as it is added, also where there is no room. -/
theorem assemble_eq_error
    (program : String)
    {before after : List Addition}
    {name : String}
    {size value : Int}
    {fault : CountFault}
    (regular : Regular (before ++ .named name size value :: after))
    (makeable : Makeable before)
    (tooLarge : ByteCount.checkShift 1 (8 * size.toNat) = .error fault) :
    ∃ builder, assemble (before ++ .named name size value :: after) (Builder.start program) =
      .error (if (before.flatMap entries).length ≤ limit then .count fault
        else .tooManyObjects) builder := by
  have sized : 0 ≤ size := by
    apply regular.sized
    rw [List.flatMap_append, List.flatMap_cons]
    exact List.mem_append_right _ List.mem_cons_self
  have ends : Ends (assemble (before ++ .named name size value :: after)) (Builder.start program)
      (fun _ _ => False)
      (· = if (before.flatMap entries).length ≤ limit then .count fault
        else .tooManyObjects) := by
    apply Ends.bind
    rw [List.forM_eq_forM, List.forM_append]
    apply Ends.bind
    refine (ends_forM program regular.of_append makeable).mono ?_ ?_
    · intro _ middle follows
      rw [if_pos follows.length_le, List.forM_cons]
      apply Ends.bind
      show Ends (Builder.addVariable name size value) middle _ _
      unfold Builder.addVariable
      rw [if_neg (Int.not_lt.mpr sized), tooLarge]
      apply Ends.bind
      exact Ends.ofExcept (fun _ made => nomatch made) fun _ refused =>
        (Except.error.inj refused).symm
    · rintro _ ⟨rfl, overfull⟩
      rw [if_neg (Nat.not_le.mpr overfull)]
  obtain ⟨_, builder, ran, rfl⟩ := ends.exists_error fun _ _ => id
  exact ⟨builder, ran⟩

/-- A variable that is too large has more than `2 ^ 35` bytes. -/
theorem lt_size_of_tooLarge
    {size : Int}
    {fault : CountFault}
    (tooLarge : ByteCount.checkShift 1 (8 * size.toNat) = .error fault) :
    2 ^ 35 < size := by
  by_contra small
  have fits : (1 : Int).natAbs.log2 + 8 * size.toNat ≤ 0x4000000000 := by
    show 0 + 8 * size.toNat ≤ _
    omega
  rw [ByteCount.checkShift_eq_ok fits] at tooLarge
  cases tooLarge

/-- A record can be built exactly when there is room for an object for each argument, variable,
file and stream, and for the version; then it is the record of an inventory of all that was added.
Only a variable of more than `2 ^ 35` bytes may be too large to be made, which is found out before
there is no room for it. -/
theorem assemble_inventory
    (program : String)
    {additions : List Addition}
    (regular : Regular additions) :
    (Makeable additions →
      (objectCount additions ≤ limit →
        ∃ inventory : Inventory, inventory.Accounts additions ∧
          ∃ builder, assemble additions (Builder.start program) =
            .ok (inventory.record program) builder) ∧
      (limit < objectCount additions →
        ∃ builder, assemble additions (Builder.start program) =
          .error .tooManyObjects builder)) ∧
    (∀ before name size value after fault,
      additions = before ++ .named name size value :: after →
      Makeable before →
      ByteCount.checkShift 1 (8 * size.toNat) = .error fault →
        2 ^ 35 < size ∧
          ∃ builder, assemble additions (Builder.start program) =
            .error (if (before.flatMap entries).length ≤ limit then .count fault
              else .tooManyObjects) builder) := by
  refine ⟨fun makeable => ?_, ?_⟩
  · have ends := ends_assemble program regular makeable
    refine ⟨fun room => ?_, fun full => ?_⟩
    · obtain ⟨_, builder, ran, _, inventory, accounts, rfl⟩ :=
        ends.exists_ok fun _ overfull => Nat.not_lt.mpr room overfull.2
      exact ⟨inventory, accounts, builder, ran⟩
    · obtain ⟨_, builder, ran, rfl, _⟩ :=
        ends.exists_error fun _ _ fits => Nat.not_le.mpr full fits.1
      exact ⟨builder, ran⟩
  · rintro before name size value after fault rfl makeable tooLarge
    exact ⟨lt_size_of_tooLarge tooLarge, assemble_eq_error program regular makeable tooLarge⟩

/-- Every kind of addition, with a negative value and files of different sizes. -/
def assorted : List Addition :=
  [.file [1], .argument (.text "\u00e9"), .stdin [7, 0], .named "n" 2 (-2),
    .arguments [.bytes [0, 1], .text ""], .stdout [65], .file [1, 2, 3]]

/-- As many arguments as a record has room for, and a variable that is too large. -/
def crowded : List Addition :=
  [.arguments (List.replicate 64 (.text ""))] ++ [.named "n" 1180591620717411303424 0]

theorem assemble_inventory_assorted :
    Regular assorted ∧ Makeable assorted ∧ objectCount assorted = 9 ∧
      ∃ inventory : Inventory, inventory.Accounts assorted ∧
        ∃ builder, assemble assorted (Builder.start "prog") =
          .ok (inventory.record "prog") builder := by
  have regular : Regular assorted := ⟨by decide, by decide, by decide⟩
  have makeable : Makeable assorted := by
    unfold Makeable
    decide
  have count : objectCount assorted = 9 := by decide
  have room : objectCount assorted ≤ limit := by
    rw [count]
    decide
  exact ⟨regular, makeable, count, ((assemble_inventory "prog" regular).1 makeable).1 room⟩

/-- There is no room for what is added, but that is not why it is refused. -/
theorem assemble_crowded :
    Regular crowded ∧ objectCount crowded = 66 ∧
      ∃ builder, assemble crowded (Builder.start "p") = .error (.count .tooWide) builder := by
  have regular : Regular crowded := ⟨by decide, by decide, by decide⟩
  have makeable : Makeable [.arguments (List.replicate 64 (.text ""))] := by
    unfold Makeable
    decide
  have tooLarge : ByteCount.checkShift 1 (8 * (1180591620717411303424 : Int).toNat) =
      .error .tooWide := by
    decide
  obtain ⟨builder, ran⟩ := assemble_eq_error "p" regular makeable tooLarge
  rw [if_pos (by decide)] at ran
  exact ⟨regular, by decide, builder, ran⟩

end Addition

end Diverge
