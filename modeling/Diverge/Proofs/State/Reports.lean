import Diverge.Proofs.Assoc
import Diverge.Proofs.Computation
import Diverge.State.Report

/-!
# The memory that a stack report shows

A stack report goes through the frames from the newest to the oldest, files the memory of each
under the name of its function, and writes out the file.  The file keeps one text for a name, so
of several frames of one function only the oldest is shown: where a function calls itself, the
memory of the frame in which the error arose is lost (`reportStack_oldest`).  What was filed for
functions that are not on the stack stays.
-/

namespace Diverge

namespace Report

/-- A frame and the instruction at which it stands. -/
structure Standing where
  frame : Frame
  target : Option Instruction

namespace Standing

/-- The name under which the memory of the frame is filed. -/
def name (standing : Standing) : String :=
  standing.frame.function.name

/-- The memory of the frame while it is on the stack. -/
def memory (heap : Heap) (space : Nat) (standing : Standing) : Except Fault String :=
  frameInfo heap space standing.frame standing.target true

end Standing

/-- Frames, the newest first, with the instructions at which they stand: each was entered where
the next one stands. -/
def standings (target : Option Instruction) : List Frame → List Standing
  | [] => []
  | frame :: rest => ⟨frame, target⟩ :: standings frame.caller rest

/-! ## Filing -/

/-- Gathering goes from frame to frame, each entered where the next one stands. -/
theorem gather_cons_eq_ok
    {heap : Heap}
    {space : Nat}
    {target : Option Instruction}
    {frame : Frame}
    {rest : List Frame}
    {before after : Assoc String String} :
    gather heap space target (frame :: rest) before = .ok () after ↔
      ∃ text, Standing.memory heap space ⟨frame, target⟩ = .ok text ∧
        gather heap space frame.caller rest (before.put frame.function.name text) =
          .ok () after := by
  constructor
  · intro gathered
    obtain ⟨text, _, taken, goesOn⟩ := Stateful.bind_eq_ok.1 gathered
    obtain ⟨shown, rfl⟩ := Stateful.ofExcept_eq_ok.1 taken
    exact ⟨text, shown, goesOn⟩
  · rintro ⟨text, shown, goesOn⟩
    exact Stateful.bind_eq_ok.2 ⟨text, before, Stateful.ofExcept_eq_ok.2 ⟨shown, rfl⟩, goesOn⟩

/-- What frames leave in the file: the oldest frame of a name decides what the name has. -/
structure Filed
    (heap : Heap)
    (space : Nat)
    (standings : List Standing)
    (before after : Assoc String String) : Prop where
  once : before.HasOnce → after.HasOnce
  others : ∀ name, (∀ standing ∈ standings, standing.name ≠ name) →
    after.get? name = before.get? name
  shown : ∀ newer standing older, standings = newer ++ standing :: older →
    ∃ text, standing.memory heap space = .ok text ∧
      ((∀ other ∈ older, other.name ≠ standing.name) → after.get? standing.name = some text)

/-- Filing one more frame before the others: only where they file nothing is its text kept. -/
theorem Filed.cons
    {heap : Heap}
    {space : Nat}
    {standing : Standing}
    {rest : List Standing}
    {before after : Assoc String String}
    {text : String}
    (shown : standing.memory heap space = .ok text)
    (filed : Filed heap space rest (before.put standing.name text) after) :
    Filed heap space (standing :: rest) before after where
  once distinct := filed.once (distinct.put _ _)
  others name absent := by
    obtain ⟨different, absent⟩ := List.forall_mem_cons.1 absent
    rw [filed.others name absent, Assoc.get?_put_of_ne _ (Ne.symm different)]
  shown newer other older split := by
    cases newer with
    | nil =>
        obtain ⟨rfl, rfl⟩ := List.cons.inj split
        refine ⟨text, shown, fun oldest => ?_⟩
        rw [filed.others _ oldest, Assoc.get?_put_self]
    | cons newest newer =>
        exact filed.shown newer other older (List.cons.inj split).2

/-- What was gathered has one text for each name, that of the oldest frame. -/
theorem filed_of_gather
    {heap : Heap}
    {space : Nat}
    {target : Option Instruction}
    {frames : List Frame}
    {before after : Assoc String String}
    (gathered : gather heap space target frames before = .ok () after) :
    Filed heap space (standings target frames) before after := by
  induction frames generalizing target before with
  | nil =>
      obtain ⟨-, rfl⟩ := Stateful.pure_eq_ok.1 gathered
      exact {
        once := id
        others := fun _ _ => rfl
        shown := fun newer _ _ split => absurd split (by simp [standings]) }
  | cons frame rest inductionHypothesis =>
      obtain ⟨text, shown, gathered⟩ := gather_cons_eq_ok.1 gathered
      exact .cons shown (inductionHypothesis gathered)

/-! ## Writing the file -/

/-- The text filed under a name is written below the name. -/
theorem renderInfo_of_get?
    {info : Assoc String String}
    {name text : String}
    (found : info.get? name = some text) :
    ∃ before after, renderInfo info = before ++ (name ++ ":\n" ++ text) ++ after := by
  obtain ⟨before, after, rfl⟩ := List.append_of_mem (Assoc.mem_of_get? found)
  refine ⟨renderInfo before, renderInfo after, ?_⟩
  simp only [renderInfo, List.map_append, List.map_cons, String.join_append, String.join_cons,
    String.append_assoc]

end Report

namespace Execution

open Report

section

variable {execution later : Execution} {place : Nat} {state : ExecState} {report : Report}
  {lines : String} {info : Assoc String String} {fault : Fault}

theorem reportStack_of_backtrace_error
    (found : execution.stateAt place = state)
    (traced : backtrace 0 state.prevPc state.stack.reverse "" = .error fault lines) :
    ((reportStack place).run execution).1.fault = some fault := by
  simp only [reportStack, StateT.run_bind, StateT.run_get, pure_bind, found, traced]
  rfl

theorem reportStack_of_gather_error
    (found : execution.stateAt place = state)
    (asked : state.options.reportLocals = true)
    (traced : backtrace 0 state.prevPc state.stack.reverse "" = .ok () lines)
    (gathered : gather execution.heap state.space state.prevPc state.stack.reverse state.info =
      .error fault info) :
    ((reportStack place).run execution).1.fault = some fault := by
  simp only [reportStack, StateT.run_bind, StateT.run_get, pure_bind, found, traced, gathered,
    asked, if_true]
  rfl

/-- A report that ends shows the lines of the frames and then what was gathered. -/
theorem reportStack_of_gather_ok
    (found : execution.stateAt place = state)
    (asked : state.options.reportLocals = true)
    (traced : backtrace 0 state.prevPc state.stack.reverse "" = .ok () lines)
    (gathered : gather execution.heap state.space state.prevPc state.stack.reverse state.info =
      .ok () info) :
    (reportStack place).run execution =
      ({ text := lines ++ "Stack Content:\n" ++ renderInfo info, fault := none },
        { execution with
          states := execution.states.setIfInBounds place { state with info } }) := by
  simp only [reportStack, StateT.run_bind, StateT.run_get, pure_bind, found, traced, gathered,
    asked, if_true]
  rfl

/-- A report that ends shows the frames, and then all that was filed. -/
theorem reportStack_complete
    (asked : (execution.stateAt place).options.reportLocals = true)
    (reported : (reportStack place).run execution = (report, later))
    (complete : report.fault = none) :
    let state := execution.stateAt place
    ∃ lines info,
      backtrace 0 state.prevPc state.stack.reverse "" = .ok () lines ∧
        gather execution.heap state.space state.prevPc state.stack.reverse state.info =
          .ok () info ∧
        report.text = lines ++ "Stack Content:\n" ++ renderInfo info ∧
          later = { execution with
            states := execution.states.setIfInBounds place { state with info } } := by
  intro state
  have noFault : ((reportStack place).run execution).1.fault = none := by rw [reported, complete]
  cases traced : backtrace 0 state.prevPc state.stack.reverse "" with
  | error fault lines =>
      rw [reportStack_of_backtrace_error rfl traced] at noFault
      cases noFault
  | ok _ lines =>
      cases gathered : gather execution.heap state.space state.prevPc state.stack.reverse
          state.info with
      | error fault info =>
          rw [reportStack_of_gather_error rfl asked traced gathered] at noFault
          cases noFault
      | ok _ info =>
          rw [reportStack_of_gather_ok rfl asked traced gathered] at reported
          cases reported
          exact ⟨lines, info, rfl, rfl, rfl, rfl⟩

end

/--
Let the options of a state ask for memory, and let the report on its stack end.  Then every frame
has a text for its memory, taken where the frame stands.  The report shows it, below the name of the
function, if no older frame is of a function of that name.  It keeps one text for a name, the one of
the oldest such frame, and where no such frame is on the stack, what the state knew before.
-/
theorem reportStack_oldest
    {execution later : Execution}
    {place : Nat}
    {report : Report}
    (asked : (execution.stateAt place).options.reportLocals = true)
    (reported : (reportStack place).run execution = (report, later))
    (complete : report.fault = none) :
    let state := execution.stateAt place
    let standings := standings state.prevPc state.stack.reverse
    ∃ lines info,
      backtrace 0 state.prevPc state.stack.reverse "" = .ok () lines ∧
        report.text = lines ++ "Stack Content:\n" ++ renderInfo info ∧
        later = { execution with
          states := execution.states.setIfInBounds place { state with info } } ∧
        (state.info.HasOnce → info.HasOnce) ∧
        (∀ name, (∀ standing ∈ standings, standing.name ≠ name) →
          info.get? name = state.info.get? name) ∧
        ∀ newer standing older, standings = newer ++ standing :: older →
          ∃ text, standing.memory execution.heap state.space = .ok text ∧
            ((∀ other ∈ older, other.name ≠ standing.name) →
              info.get? standing.name = some text ∧
                ∃ before after,
                  renderInfo info = before ++ (standing.name ++ ":\n" ++ text) ++ after) := by
  intro state standings
  obtain ⟨lines, info, traced, gathered, written, kept⟩ :=
    reportStack_complete asked reported complete
  have filed := filed_of_gather gathered
  refine ⟨lines, info, traced, written, kept, filed.once, filed.others, ?_⟩
  intro newer standing older split
  obtain ⟨text, shown, isKept⟩ := filed.shown newer standing older split
  exact ⟨text, shown, fun oldest => ⟨isKept oldest, renderInfo_of_get? (isKept oldest)⟩⟩

end Execution

namespace Recursion

def call : Instruction :=
  { number := 1, function := "f", file := "f.c", line := 3, assemblyLine := 12 }

def function : Function :=
  { key := 0, name := "f", registers := 1, instructions := [call], argRegisters := []
    argNames := [] }

def outer : MemoryObject :=
  { key := 0, number := 1, address := 4096, size := 1, name := "x", allocSite := none
    isLocal := true }

def inner : MemoryObject :=
  { outer with key := 1, number := 2, address := 8192, name := "y" }

def frame (caller : Option Instruction) (object : MemoryObject) : Frame :=
  { (default : Frame) with caller, function, allocas := [object] }

/-- A function has called itself, and each of its two frames has an object. -/
def execution : Execution where
  heap :=
    { contents := #[
        { object := outer, readOnly := false, owner := 1, bytes := [.const ⟨0, 8, false⟩ 1] },
        { object := inner, readOnly := false, owner := 1, bytes := [.const ⟨1, 8, false⟩ 2] }]
      spaces := #[{ key := 1, bindings := [(outer, 0), (inner, 1)] }]
      nextKey := 2 }
  states := #[
    { (default : ExecState) with
      options := { reportLocals := true }
      prevPc := some call
      stack := [frame none outer, frame (some call) inner] }]

/-- The frame that was entered last. -/
def newest : Report.Standing :=
  ⟨frame (some call) inner, some call⟩

/-- The frame that was entered first. -/
def oldest : Report.Standing :=
  ⟨frame none outer, some call⟩

end Recursion

open Execution Report Recursion in
/-- Of a function that has called itself the first frame is shown, and the second is lost. -/
theorem reportStack_oldest_recursion :
    let ended := (reportStack 0).run execution
    ∃ lines info first second,
      ended.1.text = lines ++ "Stack Content:\n" ++ renderInfo info ∧
        oldest.memory execution.heap 0 = .ok first ∧ newest.memory execution.heap 0 = .ok second ∧
          info.get? "f" = some first ∧
            (∃ before after, renderInfo info = before ++ ("f" ++ ":\n" ++ first) ++ after) ∧
              occursIn second.toList ended.1.text.toList = false := by
  intro ended
  have asked : (execution.stateAt 0).options.reportLocals = true := rfl
  have reported : (reportStack 0).run execution = (ended.1, ended.2) := (Prod.eta _).symm
  have complete : ended.1.fault = none := Option.isNone_iff_eq_none.1 (by decide +kernel)
  obtain ⟨lines, info, -, written, -, -, -, shown⟩ := reportStack_oldest asked reported complete
  obtain ⟨first, isFirst, kept⟩ := shown [newest] oldest [] rfl
  obtain ⟨second, isSecond, -⟩ := shown [] newest [oldest] rfl
  obtain ⟨found, appears⟩ := kept fun _ => nofun
  refine ⟨lines, info, first, second, written, isFirst, isSecond, found, appears, ?_⟩
  have text : (newest.memory execution.heap 0).toOption =
      some "f:\nf (stack): y (local):\n\tSize: 1\n\t\t\t0 -> (w8 2)\n" := by decide +kernel
  rw [show newest.memory execution.heap 0 = .ok second from isSecond] at text
  rw [Option.some.inj text]
  decide +kernel

end Diverge
