import Diverge.Proofs.Record.Quoting
import Diverge.Record.Builder

/-!
# Arguments from the builder to the divergence

A builder names its arguments by a counter, and a divergence finds them by the names of objects.
What is added to a builder keeps one invariant: the objects of the record that are named as
arguments are the values added so far, in order, at the positions from zero on.  The counter never
needs a third digit, since a record has no room for that many objects, and no file, stream or
version is named as an argument is.

The arguments of a divergence can always be written.  Its outputs show the revisions, so the whole
text is refused if there are outputs and a revision has too many digits (`Divergence.render_eq`).
-/

namespace Diverge

open Stateful

/-! ## Names -/

/-- Two digits tell a position again. -/
theorem Divergence.argPosition?_argName
    {position : Nat}
    (small : position < 100) :
    argPosition? (Builder.argName position) = some position := by
  have all : ∀ position : Fin 100,
      argPosition? (Builder.argName position) = some position.val := by
    decide +kernel
  exact all ⟨position, small⟩

theorem Divergence.argPosition?_of_length
    {name : String}
    (other : name.toList.length ≠ 5) :
    argPosition? name = none := by
  unfold argPosition?
  split
  next named =>
      rw [named] at other
      exact absurd rfl other
  next => rfl

/-- The name of a file is too long for an argument. -/
theorem Divergence.argPosition?_fileName
    (position : Nat) :
    argPosition? (Builder.fileName position) = none := by
  apply argPosition?_of_length
  unfold Builder.fileName
  rw [String.toList_append, String.toList_singleton, List.length_append,
    List.length_singleton]
  decide

theorem Divergence.argPosition?_of_isArgName
    {name : String}
    (otherwise : isArgName name = false) :
    argPosition? name = none := by
  rw [← Option.isNone_iff_eq_none, ← Option.isSome_eq_false_iff]
  exact otherwise

/-! ## Arguments of a record -/

/-- The bytes of an argument; of text, the bytes of its characters one after another. -/
def Argument.octets : Argument → List UInt8
  | .text value => value.toList.flatMap String.utf8EncodeChar
  | .bytes value => value

/-- The values of arguments at the positions from zero on, each with a zero byte at the end. -/
def Argument.numbered (values : List Argument) : Assoc Int Argument :=
  values.mapIdx fun position value => (position, .bytes (value.octets ++ [0]))

/-- The argument that an object is named as, at its position. -/
def RecordObject.argument? (object : RecordObject) : Option (Int × Argument) :=
  (Divergence.argPosition? object.name).map fun (position : Nat) =>
    ((position : Int), .bytes object.data)

/-- The objects of a record that are named as arguments, with their positions. -/
def TestRecord.arguments (record : TestRecord) : Assoc Int Argument :=
  record.objects.filterMap RecordObject.argument?

namespace Argument

/--
The bytes of an argument are those of its specification: UTF-8 for a text, and bytes as they
are.
-/
theorem encoded_eq
    (argument : Argument) :
    argument.encoded = argument.octets := by
  cases argument with
  | text value =>
      rw [encoded, String.toUTF8, ← String.utf8Encode_toList]
      simp [octets, List.utf8Encode]
  | bytes value => rfl

theorem length_numbered
    (values : List Argument) :
    (numbered values).length = values.length :=
  List.length_mapIdx

/-- One more argument gets the next position. -/
theorem numbered_concat
    (values : List Argument)
    (value : Argument) :
    numbered (values ++ [value]) =
      numbered values ++ [((values.length : Int), .bytes (value.octets ++ [0]))] :=
  List.mapIdx_concat

/-- The positions ascend. -/
theorem pairwise_numbered
    (values : List Argument) :
    (numbered values).Pairwise fun left right => left.1 < right.1 := by
  rw [List.pairwise_iff_getElem]
  intro earlier later _ _ before
  simp only [numbered, List.getElem_mapIdx]
  omega

theorem hasOnce_numbered
    (values : List Argument) :
    Assoc.HasOnce (numbered values) := by
  apply List.pairwise_map.mpr
  exact (pairwise_numbered values).imp fun before => Int.ne_of_lt before

end Argument

namespace Builder

/-- The arguments of the record in the making are the values added so far. -/
structure Holds (values : List Argument) (builder : Builder) : Prop where
  counted : builder.argCount = values.length
  arguments : builder.record.arguments = Argument.numbered values
  room : builder.record.objects.length ≤ TestRecord.limit

variable {values : List Argument} {builder : Builder}

theorem holds_start
    (program : String) :
    Holds [] (start program) where
  counted := rfl
  arguments := rfl
  room := Nat.zero_le _

/-- Values are objects, and there are at most so many of these. -/
theorem Holds.length_le
    (holds : Holds values builder) :
    values.length ≤ builder.record.objects.length := by
  rw [← Argument.length_numbered, ← holds.arguments]
  exact List.length_filterMap_le _ _

/-- The builder after an object was appended to its record. -/
def pushed (builder : Builder) (object : RecordObject) : Builder :=
  { builder with record := { builder.record with objects := builder.record.objects ++ [object] } }

theorem yields_push
    {name : String}
    {data : List UInt8}
    {after : Unit → Builder → Prop}
    (holds : builder.record.objects.length < TestRecord.limit →
      after () (builder.pushed { name, data })) :
    Yields (push name data) builder after := by
  unfold push
  apply Yields.get_bind
  apply Yields.bind
  apply Yields.ofExcept
  intro record outcome
  unfold TestRecord.push at outcome
  split at outcome
  next space =>
      cases outcome
      exact Yields.modify (holds space)
  next => cases outcome

/-- An object counts as an argument if its name tells a position. -/
theorem arguments_pushed
    (object : RecordObject) :
    (builder.pushed object).record.arguments =
      builder.record.arguments ++ object.argument?.toList := by
  show (builder.record.objects ++ [object]).filterMap RecordObject.argument? = _
  rw [List.filterMap_append]
  cases found : object.argument? with
  | none => rw [List.filterMap_cons_none found]; rfl
  | some argument => rw [List.filterMap_cons_some found]; rfl

theorem length_pushed_le
    (space : builder.record.objects.length < TestRecord.limit)
    (object : RecordObject) :
    (builder.pushed object).record.objects.length ≤ TestRecord.limit := by
  show (builder.record.objects ++ [object]).length ≤ _
  rw [List.length_append]
  exact space

/-- An object of another name leaves the arguments as they are. -/
theorem Holds.yields_push
    (holds : Holds values builder)
    {name : String}
    (otherwise : Divergence.argPosition? name = none)
    (data : List UInt8) :
    Yields (push name data) builder fun _ => Holds values := by
  apply Builder.yields_push
  intro space
  constructor
  · exact holds.counted
  · rw [arguments_pushed, holds.arguments, RecordObject.argument?, otherwise]
    exact List.append_nil _
  · exact length_pushed_le space _

theorem Holds.yields_announce
    (holds : Holds values builder)
    (words : List String) :
    Yields (announce words) builder fun _ => Holds values :=
  Yields.modify ⟨holds.counted, holds.arguments, holds.room⟩

/-- The object of an argument is named by the counter, which still has two digits. -/
theorem Holds.yields_addArgument
    (holds : Holds values builder)
    (value : Argument) :
    Yields (addArgument value) builder fun _ => Holds (values ++ [value]) := by
  unfold addArgument
  apply Yields.get_bind
  apply Yields.bind
  apply Yields.modify
  apply Yields.bind
  apply Builder.yields_push
  intro space
  have named : RecordObject.argument?
      { name := argName builder.argCount, data := value.encoded ++ [0] } =
        some ((values.length : Int), .bytes (value.octets ++ [0])) := by
    have few := holds.length_le
    rw [RecordObject.argument?, holds.counted, value.encoded_eq, Divergence.argPosition?_argName
      (Nat.lt_of_le_of_lt few (Nat.lt_trans space (by decide)))]
    rfl
  have holdsNext : Holds (values ++ [value])
      (pushed { builder with argCount := builder.argCount + 1 }
        { name := argName builder.argCount, data := value.encoded ++ [0] }) := by
    constructor
    · show builder.argCount + 1 = _
      rw [List.length_append, holds.counted]
      rfl
    · rw [arguments_pushed, holds.arguments, named, Argument.numbered_concat]
      rfl
    · exact length_pushed_le space _
  apply Yields.bind
  intro _ middle ran
  have holdsLater := holdsNext.yields_announce _ ran
  exact Yields.modify ⟨holdsLater.counted, holdsLater.arguments, holdsLater.room⟩

/-- After any number of arguments the record holds them all, by induction on their list. -/
theorem Holds.yields_addArguments
    (holds : Holds values builder)
    (more : List Argument) :
    Yields (addArguments more) builder fun _ => Holds (values ++ more) := by
  induction more generalizing values builder with
  | nil =>
      rw [List.append_nil]
      exact Yields.pure holds
  | cons value rest inductionHypothesis =>
      unfold addArguments
      apply Yields.bind
      intro _ middle ran
      rw [List.append_cons]
      exact inductionHypothesis (holds.yields_addArgument value ran)

/-- A variable is no argument, since its name does not look like that of one. -/
theorem Holds.yields_addVariable
    (holds : Holds values builder)
    {name : String}
    (otherwise : Divergence.isArgName name = false)
    (size value : Int) :
    Yields (addVariable name size value) builder fun _ => Holds values := by
  unfold addVariable
  split
  next => exact Yields.bind fun _ _ ran => absurd ran throw_ne_ok
  next =>
      apply Yields.bind
      apply Yields.ofExcept
      intro _ _
      exact holds.yields_push (Divergence.argPosition?_of_isArgName otherwise) _

theorem Holds.yields_addFile
    (holds : Holds values builder)
    (content : List UInt8) :
    Yields (addFile content) builder fun _ => Holds values :=
  Yields.modify ⟨holds.counted, holds.arguments, holds.room⟩

theorem Holds.yields_addStdin
    (holds : Holds values builder)
    (content : List UInt8) :
    Yields (addStdin content) builder fun _ => Holds values := by
  unfold addStdin
  apply Yields.get_bind
  split
  next => exact Yields.bind fun _ _ ran => absurd ran throw_ne_ok
  next => exact Yields.modify ⟨holds.counted, holds.arguments, holds.room⟩

theorem Holds.yields_addStdout
    (holds : Holds values builder)
    (content : List UInt8) :
    Yields (addStdout content) builder fun _ => Holds values := by
  unfold addStdout
  apply Yields.get_bind
  split
  next => exact Yields.bind fun _ _ ran => absurd ran throw_ne_ok
  next => exact Yields.modify ⟨holds.counted, holds.arguments, holds.room⟩

/-! ## What is appended when the record is built -/

/-- Nor is any file: the name of a file does not look like that of an argument. -/
theorem Holds.yields_pushFrom
    (holds : Holds values builder)
    (size position : Nat)
    (files : List (List UInt8)) :
    Yields (pushFrom size position files) builder fun _ => Holds values := by
  induction files generalizing position builder with
  | nil => exact Yields.pure holds
  | cons content rest inductionHypothesis =>
      unfold pushFrom
      apply Yields.bind
      intro _ middle ran
      exact inductionHypothesis
        (holds.yields_push (Divergence.argPosition?_fileName position) _ ran) (position + 1)

theorem Holds.yields_pushFiles
    (holds : Holds values builder)
    (files : List (List UInt8)) :
    Yields (pushFiles files) builder fun _ => Holds values := by
  unfold pushFiles
  split
  next => exact Yields.pure holds
  next =>
      apply Yields.bind
      intro _ middle ran
      exact (holds.yields_pushFrom _ _ _ ran).yields_announce _

theorem Holds.yields_pushStdin
    (holds : Holds values builder)
    (content : Option (List UInt8)) :
    Yields (pushStdin content) builder fun _ => Holds values := by
  cases content with
  | none => exact Yields.pure holds
  | some content =>
      apply Yields.bind
      intro _ middle ran
      exact (holds.yields_push (by decide) _ ran).yields_announce _

theorem Holds.yields_pushStdout
    (holds : Holds values builder)
    (content : Option (List UInt8)) :
    Yields (pushStdout content) builder fun _ => Holds values := by
  cases content with
  | none => exact Yields.pure holds
  | some content =>
      apply Yields.bind
      intro _ middle ran
      exact (holds.yields_push (by decide) _ ran).yields_announce _

/-- What is added last, by building, is no argument either. -/
theorem Holds.yields_build
    (holds : Holds values builder) :
    Yields build builder fun record _ => record.arguments = Argument.numbered values := by
  unfold build
  apply Yields.get_bind
  apply Yields.bind
  intro _ withFiles ranFiles
  apply Yields.bind
  intro _ withStdin ranStdin
  apply Yields.bind
  intro _ withStdout ranStdout
  apply Yields.bind
  intro _ complete ranVersion
  apply Yields.get_bind
  apply Yields.pure
  have holdsFiles := holds.yields_pushFiles _ ranFiles
  have holdsStdin := holdsFiles.yields_pushStdin _ ranStdin
  have holdsStdout := holdsStdin.yields_pushStdout _ ranStdout
  exact (holdsStdout.yields_push (by decide) _ ranVersion).arguments

end Builder

/-! ## Everything that can be added -/

/-- What can be added to a builder. -/
inductive Addition where
  | argument (value : Argument)
  | arguments (values : List Argument)
  /-- A variable of a number of bytes. -/
  | named (name : String) (size value : Int)
  | file (content : List UInt8)
  | stdin (content : List UInt8)
  | stdout (content : List UInt8)
  deriving DecidableEq, Repr

namespace Addition

/-- Add it. -/
def run : Addition → BuilderM Unit
  | .argument value => Builder.addArgument value
  | .arguments values => Builder.addArguments values
  | .named name size value => Builder.addVariable name size value
  | .file content => Builder.addFile content
  | .stdin content => Builder.addStdin content
  | .stdout content => Builder.addStdout content

/-- The arguments among what is added. -/
def values : Addition → List Argument
  | .argument value => [value]
  | .arguments values => values
  | .named _ _ _ | .file _ | .stdin _ | .stdout _ => []

/-- A variable is not named as an argument is. -/
def IsPlain : Addition → Prop
  | .named name _ _ => Divergence.isArgName name = false
  | _ => True

/-- Every addition keeps the arguments and adds its own. -/
theorem yields_run
    {added : List Argument}
    {builder : Builder}
    (holds : builder.Holds added)
    {addition : Addition}
    (plain : addition.IsPlain) :
    Yields addition.run builder fun _ => Builder.Holds (added ++ addition.values) := by
  cases addition with
  | argument value => exact holds.yields_addArgument value
  | arguments values => exact holds.yields_addArguments values
  | named name size value =>
      rw [values, List.append_nil]
      exact holds.yields_addVariable plain size value
  | file content =>
      rw [values, List.append_nil]
      exact holds.yields_addFile content
  | stdin content =>
      rw [values, List.append_nil]
      exact holds.yields_addStdin content
  | stdout content =>
      rw [values, List.append_nil]
      exact holds.yields_addStdout content

/-- The invariant is kept however additions follow one another. -/
theorem yields_forM
    {added : List Argument}
    {builder : Builder}
    (holds : builder.Holds added)
    {additions : List Addition}
    (plain : ∀ addition ∈ additions, addition.IsPlain) :
    Yields (additions.forM run) builder fun _ =>
      Builder.Holds (added ++ additions.flatMap values) := by
  induction additions generalizing added builder with
  | nil =>
      rw [List.flatMap_nil, List.append_nil]
      exact Yields.pure holds
  | cons addition rest inductionHypothesis =>
      rw [List.flatMap_cons, ← List.append_assoc]
      apply Yields.bind
      intro _ middle ran
      exact inductionHypothesis (yields_run holds (plain addition List.mem_cons_self) ran)
        fun other member => plain other (List.mem_cons_of_mem _ member)

end Addition

/-! ## The divergence that a record gives -/

namespace Divergence

/-- Objects that are named as arguments set those, the others nothing. -/
theorem addArguments_eq
    (divergence : Divergence)
    (objects : List RecordObject) :
    divergence.addArguments objects =
      { divergence with
        args := (objects.filterMap RecordObject.argument?).foldl
          (fun args entry => args.put entry.1 entry.2) divergence.args } := by
  induction objects generalizing divergence with
  | nil => rfl
  | cons object rest inductionHypothesis =>
      unfold addArguments at inductionHypothesis ⊢
      rw [List.foldl_cons, inductionHypothesis]
      cases found : argPosition? object.name with
      | none =>
          rw [List.filterMap_cons_none (by rw [RecordObject.argument?, found]; rfl)]
      | some position =>
          rw [List.filterMap_cons_some (by rw [RecordObject.argument?, found]; rfl)]
          rfl

/-- A step that cannot fail and changes neither the revisions nor the arguments. -/
def KeepsInput (divergence : Divergence) (outcome : Except RecordFault Divergence) : Prop :=
  ∃ later, outcome = .ok later ∧
    later.firstRevision = divergence.firstRevision ∧
      later.secondRevision = divergence.secondRevision ∧
        later.args = divergence.args

variable {divergence : Divergence} {revision : Int}

/-- What keeps the arguments, one after the other, keeps them. -/
theorem KeepsInput.bind
    {outcome : Except RecordFault Divergence}
    {next : Divergence → Except RecordFault Divergence}
    (first : divergence.KeepsInput outcome)
    (rest : ∀ later : Divergence, later.firstRevision = divergence.firstRevision →
      later.secondRevision = divergence.secondRevision → later.KeepsInput (next later)) :
    divergence.KeepsInput (outcome >>= next) := by
  obtain ⟨middle, rfl, sameFirst, sameSecond, sameArgs⟩ := first
  obtain ⟨later, ended, laterFirst, laterSecond, laterArgs⟩ := rest middle sameFirst sameSecond
  exact ⟨later, ended, laterFirst.trans sameFirst, laterSecond.trans sameSecond,
    laterArgs.trans sameArgs⟩

theorem checkRevision_of_known
    (known : revision = divergence.firstRevision ∨ revision = divergence.secondRevision) :
    divergence.checkRevision revision = .ok () :=
  if_pos known

theorem keepsInput_addOutput
    (known : revision = divergence.firstRevision ∨ revision = divergence.secondRevision)
    (name : String)
    (value : List UInt8) :
    divergence.KeepsInput (divergence.addOutput name revision value) := by
  unfold addOutput
  rw [checkRevision_of_known known]
  exact ⟨_, rfl, rfl, rfl, rfl⟩

theorem keepsInput_addStdout
    (known : revision = divergence.firstRevision ∨ revision = divergence.secondRevision)
    (value : List UInt8) :
    divergence.KeepsInput (divergence.addStdout revision value) := by
  unfold addStdout
  rw [checkRevision_of_known known]
  exact ⟨_, rfl, rfl, rfl, rfl⟩

theorem keepsInput_addOutputs
    (known : revision = divergence.firstRevision ∨ revision = divergence.secondRevision)
    (objects : List RecordObject) :
    divergence.KeepsInput (divergence.addOutputs revision objects) := by
  unfold addOutputs
  induction objects generalizing divergence with
  | nil => exact ⟨divergence, rfl, rfl, rfl, rfl⟩
  | cons object rest inductionHypothesis =>
      rw [List.foldlM_cons]
      apply KeepsInput.bind
      · split
        next => exact keepsInput_addOutput known object.name object.data
        next => exact ⟨divergence, rfl, rfl, rfl, rfl⟩
      · intro later sameFirst sameSecond
        apply inductionHypothesis
        rw [sameFirst, sameSecond]
        exact known

/-- The outputs of a record leave the arguments alone. -/
theorem keepsInput_addRecord
    (known : revision = divergence.firstRevision ∨ revision = divergence.secondRevision)
    (record : TestRecord) :
    divergence.KeepsInput (divergence.addRecord revision record) := by
  unfold addRecord
  apply (keepsInput_addOutputs known record.objects).bind
  intro later sameFirst sameSecond
  split
  next =>
      apply keepsInput_addStdout
      rw [sameFirst, sameSecond]
      exact known
  next => exact ⟨later, rfl, rfl, rfl, rfl⟩

/-- Two records always show a divergence, whose arguments are those of the first record. -/
theorem ofRecords_ok
    {first : TestRecord}
    (once : Assoc.HasOnce first.arguments)
    (second : TestRecord)
    (firstRevision secondRevision : Int) :
    ∃ divergence, ofRecords first second firstRevision secondRevision = .ok divergence ∧
      divergence.firstRevision = firstRevision ∧ divergence.secondRevision = secondRevision ∧
        divergence.args = first.arguments := by
  have start : Divergence.addArguments { firstRevision, secondRevision } first.objects =
      { firstRevision, secondRevision, args := first.arguments } := by
    rw [addArguments_eq]
    congr
    exact Assoc.foldl_put_of_hasOnce [] first.arguments once
  have kept : KeepsInput { firstRevision, secondRevision, args := first.arguments }
      (ofRecords first second firstRevision secondRevision) := by
    simp only [ofRecords, start]
    apply (keepsInput_addRecord (Or.inl rfl) first).bind
    intro later _ sameSecond
    exact keepsInput_addRecord (Or.inr sameSecond.symm) second
  exact kept

/-! ## The text of a divergence -/

/-- The text of a divergence shows no integer with too many digits. -/
def IsShort (divergence : Divergence) : Prop :=
  divergence.outputs = [] ∨
    (divergence.firstRevision.natAbs < Integer.limit ∧
      divergence.secondRevision.natAbs < Integer.limit)

instance (divergence : Divergence) : Decidable divergence.IsShort :=
  inferInstanceAs (Decidable (_ ∨ _ ∧ _))

theorem renderRevision_of_lt
    (short : revision.natAbs < Integer.limit) :
    renderRevision revision = .ok (toString revision) := by
  rw [renderRevision, Integer.text?_eq_some_iff.2 ⟨short, rfl⟩]
  rfl

theorem renderRevision_of_not_lt
    (long : ¬ revision.natAbs < Integer.limit) :
    renderRevision revision = .error .tooManyDigits := by
  have none : Integer.text? revision = none := if_neg long
  rw [renderRevision, none]
  rfl

theorem renderOutput_of_lt
    (shortFirst : divergence.firstRevision.natAbs < Integer.limit)
    (shortSecond : divergence.secondRevision.natAbs < Integer.limit)
    (output : String × List UInt8 × List UInt8) :
    ∃ text, divergence.renderOutput output = .ok text := by
  rw [renderOutput, renderRevision_of_lt shortFirst, renderRevision_of_lt shortSecond]
  exact ⟨_, rfl⟩

/-- An output shows both revisions, and cannot if one has too many digits. -/
theorem renderOutput_of_not_lt
    (long : ¬ (divergence.firstRevision.natAbs < Integer.limit ∧
      divergence.secondRevision.natAbs < Integer.limit))
    (output : String × List UInt8 × List UInt8) :
    divergence.renderOutput output = .error .tooManyDigits := by
  unfold renderOutput
  by_cases shortFirst : divergence.firstRevision.natAbs < Integer.limit
  · rw [renderRevision_of_lt shortFirst,
      renderRevision_of_not_lt fun shortSecond => long ⟨shortFirst, shortSecond⟩]
    rfl
  · rw [renderRevision_of_not_lt shortFirst]
    rfl

/-- A divergence is written if it shows no revision or both are short enough. -/
theorem render_of_isShort
    (short : divergence.IsShort) :
    ∃ text, divergence.render = .ok text := by
  have written : ∃ texts, divergence.outputs.mapM divergence.renderOutput = .ok texts := by
    rcases short with none | ⟨shortFirst, shortSecond⟩
    · rw [none]
      exact ⟨[], rfl⟩
    · induction divergence.outputs with
      | nil => exact ⟨[], rfl⟩
      | cons output rest inductionHypothesis =>
          obtain ⟨text, isText⟩ := renderOutput_of_lt shortFirst shortSecond output
          obtain ⟨texts, areTexts⟩ := inductionHypothesis
          rw [List.mapM_cons, isText, areTexts]
          exact ⟨text :: texts, rfl⟩
  obtain ⟨texts, areTexts⟩ := written
  rw [render, areTexts]
  exact ⟨_, rfl⟩

/-- Otherwise its digits are refused. -/
theorem render_of_not_isShort
    (long : ¬ divergence.IsShort) :
    divergence.render = .error .tooManyDigits := by
  obtain ⟨some, long⟩ := not_or.1 long
  cases outputs : divergence.outputs with
  | nil => exact absurd outputs some
  | cons output rest =>
      rw [render, outputs, List.mapM_cons, renderOutput_of_not_lt long]
      rfl

/-- A divergence is written from its arguments on, unless it shows a revision that cannot be. -/
theorem render_eq
    (divergence : Divergence) :
    ∃ outputs, divergence.render =
      if divergence.IsShort then
        .ok (String.ofList
          ("\x7b(".toList ++ divergence.renderArguments ++ ") \x7b".toList ++ outputs))
      else .error .tooManyDigits := by
  split
  · rename_i short
    obtain ⟨text, written⟩ := render_of_isShort short
    obtain ⟨outputs, rfl⟩ := eq_of_render written
    exact ⟨outputs, written⟩
  · rename_i long
    exact ⟨[], render_of_not_isShort long⟩

/-- Arguments at ascending positions are shown as they stand. -/
theorem arguments_numbered
    {divergence : Divergence}
    {values : List Argument}
    (args : divergence.args = Argument.numbered values) :
    divergence.arguments = values.map fun value => .bytes (value.octets ++ [0]) := by
  unfold arguments
  rw [args, List.mergeSort_of_pairwise]
  · apply List.ext_getElem
    · rw [List.length_map, List.length_map, Argument.length_numbered]
    · intro position _ _
      simp only [Argument.numbered, List.getElem_map, List.getElem_mapIdx]
  · exact (Argument.pairwise_numbered values).imp fun before =>
      decide_eq_true (Int.le_of_lt before)

end Divergence

/-- A zero behind the bytes of an argument changes nothing in what they show. -/
theorem Argument.shown_terminated
    (bytes : List UInt8) :
    (Argument.bytes (bytes ++ [0])).shown = (Argument.bytes bytes).shown := by
  obtain ⟨before, after, rfl, noZero, ends⟩ := exists_before_zero bytes
  have endsToo : ∀ byte ∈ (after ++ [0]).head?, byte = 0 := by
    cases after with
    | nil => simp
    | cons byte rest => exact ends
  rw [shown, shown, List.append_assoc, takeWhile_append noZero ends,
    takeWhile_append noZero endsToo]

/-- The argument list shows what the bytes of the values spell, in their order. -/
theorem Divergence.renderArguments_numbered
    {divergence : Divergence}
    {values : List Argument}
    (args : divergence.args = Argument.numbered values) :
    ∃ texts,
      List.Forall₂ (fun value text => (Argument.bytes value.octets).Spells text) values texts ∧
        divergence.renderArguments = [' '].intercalate (texts.map enclosed) := by
  refine ⟨_, Argument.forall₂_spells_iff.2 rfl, ?_⟩
  rw [renderArguments, arguments_numbered args, List.map_map, List.map_map, spaced]
  simp only [Function.comp_def, quoted_eq, Argument.shown_terminated]

/-- Arguments as text and as bytes, with a zero inside, a quote and nothing at all. -/
def Addition.mixed : List Addition :=
  [.argument (.text "-n"), .named "arg0" 2 258, .stdout [4],
    .arguments [.bytes [200, 0, 7], .text "π\""], .file [1, 2], .stdin [3], .file [],
    .argument (.text "")]

end Diverge
