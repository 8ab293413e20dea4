import Diverge.Proofs.Record.Arguments

/-!
# What the divergence of two records holds

The divergence of two records takes its arguments from the objects of the first record, and its
outputs from those of both.  Outputs are put into one association under their names, one side of
a pair for each record: a name keeps the place where it first occurs, and each side what the last
object of the name holds.  Of standard output, the first object counts.

`Divergence.NamesArgument` and `Divergence.NamesOutput` say which names these are.
-/

namespace Diverge

namespace Divergence

/-! ## Names of arguments and outputs -/

/-- The name is `arg` and two decimal digits, which tell the position. -/
def NamesArgument (position : Int) (name : String) : Prop :=
  ∃ tens ones, ∃ high low : Nat, name.toList = "arg".toList ++ [tens, ones] ∧
    Digit.value? tens = some high ∧ Digit.value? ones = some low ∧ position = 10 * high + low

/-- The name is `out!`, anything on one line, and a decimal digit. -/
def NamesOutput (name : String) : Prop :=
  ∃ middle digit, name.toList = "out!".toList ++ middle ++ [digit] ∧
    '\n' ∉ middle ∧ Digit.isDigit digit = true

variable {name : String} {position : Int}

theorem map_argPosition?_eq_some_iff :
    (argPosition? name).map Int.ofNat = some position ↔ NamesArgument position name := by
  constructor
  · intro told
    obtain ⟨number, found, rfl⟩ := Option.map_eq_some_iff.1 told
    unfold argPosition? at found
    split at found
    next tens ones letters =>
        obtain ⟨high, isHigh, found⟩ := Option.bind_eq_some_iff.1 found
        obtain ⟨low, isLow, found⟩ := Option.bind_eq_some_iff.1 found
        cases found
        exact ⟨tens, ones, high, low, letters, isHigh, isLow, by simp⟩
    next => cases found
  · rintro ⟨tens, ones, high, low, letters, isHigh, isLow, rfl⟩
    have letters : name.toList = ['a', 'r', 'g', tens, ones] := letters
    simp [argPosition?, letters, isHigh, isLow]

/-- The test of a name decides its specification. -/
theorem isOutputName_eq_true_iff :
    isOutputName name = true ↔ NamesOutput name := by
  have noBreak : Digit.isDigit '\n' = false := by decide
  constructor
  · intro isOutput
    unfold isOutputName at isOutput
    split at isOutput
    next rest letters =>
        simp only [Bool.and_eq_true, Option.any_eq_true, Bool.not_eq_true', List.contains_eq_mem,
          decide_eq_false_iff_not] at isOutput
        obtain ⟨⟨digit, isLast, isDigit⟩, oneLine⟩ := isOutput
        obtain ⟨middle, rfl⟩ := List.getLast?_eq_some_iff.1 isLast
        refine ⟨middle, digit, by simpa using letters, ?_, isDigit⟩
        exact fun inside => oneLine (List.mem_append_left _ inside)
    next => cases isOutput
  · rintro ⟨middle, digit, letters, oneLine, isDigit⟩
    have letters : name.toList = 'o' :: 'u' :: 't' :: '!' :: (middle ++ [digit]) := by
      simpa using letters
    have other : '\n' ≠ digit := by
      rintro rfl
      simp [noBreak] at isDigit
    simp [isOutputName, letters, isDigit, oneLine, other]

instance : Decidable (NamesArgument position name) :=
  decidable_of_iff _ map_argPosition?_eq_some_iff

instance : Decidable (NamesOutput name) :=
  decidable_of_iff _ isOutputName_eq_true_iff

/-! ## Arguments -/

/-- At each position stands what the last object named for it holds. -/
theorem get?_addArguments
    (divergence : Divergence)
    (objects : List RecordObject)
    (position : Int) :
    (divergence.addArguments objects).args.get? position =
      ((objects.reverse.find? (NamesArgument position ·.name)).map
        fun object => Argument.bytes object.data).or (divergence.args.get? position) := by
  induction objects generalizing divergence with
  | nil => rfl
  | cons object rest inductionHypothesis =>
      unfold addArguments at inductionHypothesis ⊢
      rw [List.foldl_cons, inductionHypothesis, List.reverse_cons, List.find?_append,
        Option.map_or, Option.or_assoc]
      congr 1
      have named : (argPosition? object.name).map Int.ofNat = some position ↔
          NamesArgument position object.name := map_argPosition?_eq_some_iff
      cases told : argPosition? object.name with
      | none =>
          have other : ¬ NamesArgument position object.name := by
            rw [← named, told]
            nofun
          simp [other]
      | some number =>
          by_cases same : (number : Int) = position
          · have isNamed : NamesArgument position object.name := by
              rw [← named, told, ← same]
              rfl
            simp [isNamed, addArgument, same]
          · have other : ¬ NamesArgument position object.name := by
              rw [← named, told]
              simpa using same
            simp [other, addArgument, Assoc.get?_put_of_ne _ (Ne.symm same)]

/-! ## Outputs -/

/-- The pair with a value on one side. -/
def onSide (isFirst : Bool) (value : List UInt8) (pair : List UInt8 × List UInt8) :
    List UInt8 × List UInt8 :=
  if isFirst then (value, pair.2) else (pair.1, value)

/-- Outputs with what an object holds on one side of its name. -/
def putSide (isFirst : Bool) (outputs : Assoc String (List UInt8 × List UInt8))
    (object : RecordObject) : Assoc String (List UInt8 × List UInt8) :=
  outputs.put object.name
    (onSide isFirst object.data ((outputs.get? object.name).getD ([], [])))

/-- The last value on a side wins. -/
@[simp]
theorem onSide_onSide
    (isFirst : Bool)
    (value old : List UInt8)
    (pair : List UInt8 × List UInt8) :
    onSide isFirst value (onSide isFirst old pair) = onSide isFirst value pair := by
  cases isFirst <;> rfl

/--
Objects put in one after another leave their names in the order of first occurrence, and on their
side what the last one of each name holds.
-/
theorem foldl_putSide
    (isFirst : Bool)
    (objects : List RecordObject)
    (names : List String)
    (value : String → List UInt8 × List UInt8)
    (outside : ∀ name, name ∉ names → value name = ([], [])) :
    objects.foldl (putSide isFirst) (Assoc.tabulate names value) =
      Assoc.tabulate (names ++ objects.map (·.name)) fun name =>
        (objects.reverse.find? (·.name = name)).elim (value name) fun object =>
          onSide isFirst object.data (value name) := by
  induction objects generalizing names value with
  | nil => simp
  | cons object rest inductionHypothesis =>
      have known : ((Assoc.tabulate names value).get? object.name).getD ([], []) =
          value object.name := by
        rw [Assoc.get?_tabulate]
        split
        next => rfl
        next absent => exact (outside _ absent).symm
      rw [List.foldl_cons, putSide, known, Assoc.put_tabulate, inductionHypothesis,
        List.map_cons, List.append_cons names object.name (rest.map _)]
      · apply Assoc.tabulate_congr
        intro name _
        rw [List.reverse_cons, List.find?_append]
        cases rest.reverse.find? (·.name = name) with
        | none =>
            by_cases same : name = object.name
            · simp [same]
            · have different : ¬ object.name = name := fun equal => same equal.symm
              simp [same, different]
        | some last => by_cases same : name = object.name <;> simp [same]
      · intro name absent
        simp only [List.mem_append, List.mem_singleton, not_or] at absent
        rw [if_neg absent.2]
        exact outside name absent.1

section

variable {divergence : Divergence} {revision : Int}

theorem addOutput_eq
    (known : revision = divergence.firstRevision ∨ revision = divergence.secondRevision)
    (object : RecordObject) :
    divergence.addOutput object.name revision object.data =
      .ok { divergence with
        outputs := putSide (revision = divergence.firstRevision) divergence.outputs object } := by
  unfold addOutput putSide onSide
  rw [checkRevision_of_known known]
  simp only [decide_eq_true_eq]
  rfl

/-- The outputs of a record are put in one by one, in its order. -/
theorem addOutputs_eq
    (known : revision = divergence.firstRevision ∨ revision = divergence.secondRevision)
    (objects : List RecordObject) :
    divergence.addOutputs revision objects =
      .ok { divergence with
        outputs := (objects.filter (NamesOutput ·.name)).foldl
          (putSide (revision = divergence.firstRevision)) divergence.outputs } := by
  unfold addOutputs
  induction objects generalizing divergence with
  | nil => rfl
  | cons object rest inductionHypothesis =>
      rw [List.foldlM_cons]
      by_cases isOutput : NamesOutput object.name
      · rw [if_pos (isOutputName_eq_true_iff.2 isOutput), addOutput_eq known,
          List.filter_cons_of_pos (by simpa using isOutput), List.foldl_cons]
        exact inductionHypothesis known
      · rw [if_neg (mt isOutputName_eq_true_iff.1 isOutput),
          List.filter_cons_of_neg (by simpa using isOutput)]
        exact inductionHypothesis known

theorem addStdout_eq
    (known : revision = divergence.firstRevision ∨ revision = divergence.secondRevision)
    (value : List UInt8) :
    divergence.addStdout revision value =
      .ok { divergence with stdouts := divergence.stdouts.put revision value } := by
  unfold addStdout
  rw [checkRevision_of_known known]
  rfl

/-- A record adds its outputs and, if it has one, its standard output. -/
theorem addRecord_eq
    (known : revision = divergence.firstRevision ∨ revision = divergence.secondRevision)
    (record : TestRecord) :
    divergence.addRecord revision record =
      .ok { divergence with
        outputs := (record.objects.filter (NamesOutput ·.name)).foldl
          (putSide (revision = divergence.firstRevision)) divergence.outputs
        stdouts := (record.find? "stdout").elim divergence.stdouts fun object =>
          divergence.stdouts.put revision object.data } := by
  unfold addRecord
  rw [addOutputs_eq known]
  generalize (record.objects.filter _).foldl _ divergence.outputs = outputs
  cases record.find? "stdout" with
  | none => rfl
  | some object => exact @addStdout_eq { divergence with outputs } _ known object.data

end

end Divergence

/-! ## Both records -/

/-- The names of outputs among the names of objects. -/
def RecordObject.outputNames (objects : List RecordObject) : List String :=
  (objects.map (·.name)).filter Divergence.NamesOutput

/-- What the last object of a name holds, or nothing if there is none. -/
def TestRecord.lastData (record : TestRecord) (name : String) : List UInt8 :=
  ((record.objects.reverse.find? (·.name = name)).map (·.data)).getD []

namespace Divergence

/-- Among the objects that are named as outputs, those of such a name are found as among all. -/
theorem find?_filter_namesOutput
    (objects : List RecordObject)
    {name : String}
    (isOutput : NamesOutput name) :
    (objects.filter (NamesOutput ·.name)).reverse.find? (·.name = name) =
      objects.reverse.find? (·.name = name) := by
  rw [← List.filter_reverse, List.find?_filter]
  congr 1
  funext object
  by_cases same : object.name = name
  · simp [same, isOutput]
  · simp [same]

/-- Two records together give every output name once, with the last bytes of either side. -/
theorem outputs_of_records
    (first second : TestRecord) :
    (second.objects.filter (NamesOutput ·.name)).foldl (putSide false)
        ((first.objects.filter (NamesOutput ·.name)).foldl (putSide true) []) =
      Assoc.tabulate (RecordObject.outputNames (first.objects ++ second.objects)) fun name =>
        (first.lastData name, second.lastData name) := by
  have nothing : [] = Assoc.tabulate [] fun _ : String => (([], []) : List UInt8 × List UInt8) :=
    rfl
  have names (objects : List RecordObject) :
      (objects.filter (NamesOutput ·.name)).map (·.name) =
        RecordObject.outputNames objects := by
    unfold RecordObject.outputNames
    rw [List.filter_map]
    rfl
  rw [nothing, foldl_putSide true _ _ _ fun _ _ => rfl, foldl_putSide false, names, names,
    List.nil_append]
  · unfold RecordObject.outputNames
    rw [List.map_append, List.filter_append]
    apply Assoc.tabulate_congr
    intro name member
    have isOutput : NamesOutput name := by
      rw [← List.filter_append] at member
      simpa using (List.mem_filter.1 member).2
    rw [find?_filter_namesOutput _ isOutput, find?_filter_namesOutput _ isOutput]
    unfold TestRecord.lastData
    cases first.objects.reverse.find? (·.name = name) <;>
      cases second.objects.reverse.find? (·.name = name) <;> rfl
  · intro name absent
    have none : (first.objects.filter (NamesOutput ·.name)).reverse.find? (·.name = name) =
        none := by
      rw [List.find?_eq_none]
      intro object member same
      refine absent (List.mem_append_right _ (List.mem_map.2 ⟨object, ?_, by simpa using same⟩))
      exact List.mem_reverse.1 member
    rw [none]
    rfl

/-- Two records always show a divergence. -/
theorem ofRecords_eq
    (first second : TestRecord)
    {firstRevision secondRevision : Int}
    (different : firstRevision ≠ secondRevision) :
    ofRecords first second firstRevision secondRevision =
      .ok {
        firstRevision, secondRevision
        args := (addArguments { firstRevision, secondRevision } first.objects).args
        outputs := Assoc.tabulate (RecordObject.outputNames (first.objects ++ second.objects))
          fun name => (first.lastData name, second.lastData name)
        stdouts := ((first.find? "stdout").toList.map fun object => (firstRevision, object.data)) ++
          (second.find? "stdout").toList.map fun object => (secondRevision, object.data) } := by
  have isSecond : decide (secondRevision = firstRevision) = false :=
    decide_eq_false (Ne.symm different)
  have isFirst : decide (firstRevision = firstRevision) = true := decide_eq_true rfl
  have stdouts : (second.find? "stdout").elim
      ((first.find? "stdout").elim [] fun object => Assoc.put [] firstRevision object.data)
      (fun object => Assoc.put ((first.find? "stdout").elim [] fun object =>
        Assoc.put [] firstRevision object.data) secondRevision object.data) =
      ((first.find? "stdout").toList.map fun object => (firstRevision, object.data)) ++
        (second.find? "stdout").toList.map fun object => (secondRevision, object.data) := by
    cases first.find? "stdout" <;> cases second.find? "stdout" <;>
      simp [Assoc.put, different]
  simp only [ofRecords, addArguments_eq]
  rw [addRecord_eq (Or.inl rfl)]
  show addRecord _ secondRevision second = _
  rw [addRecord_eq (Or.inr rfl)]
  dsimp only
  rw [isFirst, isSecond, outputs_of_records, stdouts]

/--
Two records always show a divergence if the revisions differ.  Its outputs are the names of
outputs among the objects of the first record and then of the second, in the order of their first
occurrence, each with what the last object of the name holds in either record.  Its argument at a
position is what the last object of the first record with that position in its name holds.  It
has the first standard output of either record.  Exchanging the records together with the
revisions exchanges the sides of every output.
-/
theorem ofRecords_exact
    (first second : TestRecord)
    {firstRevision secondRevision : Int}
    (different : firstRevision ≠ secondRevision) :
    ∃ divergence exchanged,
      ofRecords first second firstRevision secondRevision = .ok divergence ∧
      divergence.outputs =
        (RecordObject.outputNames (first.objects ++ second.objects)).eraseDups.map
          (fun name => (name, first.lastData name, second.lastData name)) ∧
      (∀ position, divergence.args.get? position =
        (first.objects.reverse.find? (NamesArgument position ·.name)).map
          fun object => .bytes object.data) ∧
      divergence.stdouts =
        ((first.objects.find? (·.name = "stdout")).toList.map
          fun object => (firstRevision, object.data)) ++
        ((second.objects.find? (·.name = "stdout")).toList.map
          fun object => (secondRevision, object.data)) ∧
      ofRecords second first secondRevision firstRevision = .ok exchanged ∧
      ∀ name, exchanged.outputs.get? name = (divergence.outputs.get? name).map Prod.swap := by
  refine ⟨_, _, ofRecords_eq first second different, rfl, fun position => ?_, rfl,
    ofRecords_eq second first (Ne.symm different), fun name => ?_⟩
  · dsimp only
    rw [get?_addArguments]
    exact Option.or_none
  · have sameNames : name ∈ RecordObject.outputNames (second.objects ++ first.objects) ↔
        name ∈ RecordObject.outputNames (first.objects ++ second.objects) := by
      simp only [RecordObject.outputNames, List.map_append, List.filter_append, List.mem_append]
      exact or_comm
    dsimp only
    rw [Assoc.get?_tabulate, Assoc.get?_tabulate]
    by_cases member : name ∈ RecordObject.outputNames (first.objects ++ second.objects)
    · rw [if_pos member, if_pos (sameNames.2 member)]
      rfl
    · rw [if_neg member, if_neg (mt sameNames.1 member)]
      rfl

end Divergence

/-- Objects that come twice; the position of the argument is told in digits of two scripts. -/
def TestRecord.repetitive : TestRecord where
  objects := [⟨"arg01", [1]⟩, ⟨"out!b1", [2]⟩, ⟨"stdout", [3]⟩, ⟨"out!\n1", [4]⟩,
    ⟨"arg٠١", [5]⟩, ⟨"out!b1", [6]⟩, ⟨"stdout", [7]⟩]

/-- An output that no other record has comes before one that `repetitive` has. -/
def TestRecord.overlapping : TestRecord where
  objects := [⟨"out!a٢", [8]⟩, ⟨"arg01", [9]⟩, ⟨"out!b1", [10]⟩]

theorem Divergence.ofRecords_exact_repetitive :
    (1 : Int) ≠ 2 ∧ ∃ divergence,
      ofRecords .repetitive .overlapping 1 2 = .ok divergence ∧
      divergence.outputs = [("out!b1", [6], [10]), ("out!a٢", [], [8])] ∧
      divergence.args.get? 1 = some (.bytes [5]) ∧
      divergence.stdouts = [(1, [3])] := by
  have different : (1 : Int) ≠ 2 := by decide
  obtain ⟨divergence, _, ran, outputs, args, stdouts, _⟩ :=
    ofRecords_exact .repetitive .overlapping different
  refine ⟨different, divergence, ran, outputs.trans ?_, (args 1).trans ?_, stdouts.trans ?_⟩
  · decide +kernel
  · decide +kernel
  · decide +kernel

end Diverge
