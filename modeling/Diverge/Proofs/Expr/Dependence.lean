import Diverge.Expr.Sharing
import Diverge.Proofs.Expr.Walks

/-!
# What a value depends on

The value of an expression depends on the bytes of the symbolic arrays that are found
below it, and on no others: assignments that agree on these give the same value or the
same fault (`Workshop.evaluate_eq_of_agree`).  An evaluation follows every history down
to its array, while the search breaks histories off where it has walked before; both
come to the same arrays, since the histories of a workshop share what is older.
-/

namespace Diverge

/-- The assignments give the same bytes to the array that a node reads, if it is symbolic. -/
def Assignment.AgreeAt (first second : Assignment) (node : Expr) : Prop :=
  ∀ updates ∈ node.updates?, updates.array.isSymbolic = true →
    first updates.array.id = second updates.array.id

section

variable {first second : Assignment}

/-- Only a symbolic array looks at the assignment, and only at its own bytes. -/
theorem ArrayDecl.valueAt_congr
    {array : ArrayDecl}
    (agree : array.isSymbolic = true → first array.id = second array.id)
    (index : Option Int) :
    array.valueAt first index = array.valueAt second index := by
  unfold ArrayDecl.valueAt
  cases content : array.contents with
  | some values => rfl
  | none => rw [agree (by simp [ArrayDecl.isSymbolic, content])]

mutual

/-- Assignments that agree wherever an expression reads give it the same value. -/
theorem Expr.evaluate_congr :
    (expression : Expr) → expression.Throughout (first.AgreeAt second) →
      expression.evaluate first = expression.evaluate second
  | .const tag value, _ => rfl
  | .notOptimized tag source, agree => by
      rw [Expr.throughout_notOptimized] at agree
      exact Expr.evaluate_congr source agree.2
  | .read tag updates index, agree => by
      rw [Expr.throughout_read] at agree
      rw [Expr.evaluate_read, Expr.evaluate_read, Expr.evaluate_congr index agree.2.1]
      refine bind_congr fun position => ?_
      exact Updates.lookup_congr position updates (agree.1 updates rfl) agree.2.2
  | .select tag patches cond onTrue onFalse, agree => by
      rw [Expr.throughout_select] at agree
      rw [Expr.evaluate_select, Expr.evaluate_select, Expr.evaluate_congr cond agree.2.1,
        Expr.evaluate_congr onTrue agree.2.2.1, Expr.evaluate_congr onFalse agree.2.2.2]
  | .concat tag high low, agree => by
      rw [Expr.throughout_concat] at agree
      rw [Expr.evaluate_concat, Expr.evaluate_concat, Expr.evaluate_congr high agree.2.1,
        Expr.evaluate_congr low agree.2.2]
  | .extract tag offset source, agree => by
      rw [Expr.throughout_extract] at agree
      rw [Expr.evaluate_extract, Expr.evaluate_extract, Expr.evaluate_congr source agree.2]
  | .zext tag source, agree => by
      rw [Expr.throughout_zext] at agree
      exact Expr.evaluate_congr source agree.2
  | .sext tag source, agree => by
      rw [Expr.throughout_sext] at agree
      rw [Expr.evaluate_sext, Expr.evaluate_sext, Expr.evaluate_congr source agree.2]
  | .not tag source, agree => by
      rw [Expr.throughout_not] at agree
      rw [Expr.evaluate_not, Expr.evaluate_not, Expr.evaluate_congr source agree.2]
  | .binary tag operator left right, agree => by
      rw [Expr.throughout_binary] at agree
      rw [Expr.evaluate_binary, Expr.evaluate_binary, Expr.evaluate_congr left agree.2.1,
        Expr.evaluate_congr right agree.2.2]
  | .loose tag kind value kids, agree =>
      congrArg (evaluateLoose _)
        (evaluateEachBy_congr kids fun part member => agree part (List.mem_cons_of_mem _ member))

/-- The lookup in a history depends on its array and on what its writes read. -/
theorem Updates.lookup_congr
    (position : Option Int) :
    (updates : Updates) →
      (updates.array.isSymbolic = true → first updates.array.id = second updates.array.id) →
        updates.Throughout (first.AgreeAt second) →
          updates.lookup first position = updates.lookup second position
  | .root array, agree, _ => by
      have same : array.valueAt first position = array.valueAt second position :=
        ArrayDecl.valueAt_congr agree position
      rw [Updates.lookup_root, Updates.lookup_root, same]
  | .write id index value older, agree, agreeWritten => by
      rw [Updates.throughout_write] at agreeWritten
      rw [Updates.lookup_write, Updates.lookup_write, Expr.evaluate_congr index agreeWritten.1,
        Expr.evaluate_congr value agreeWritten.2.1,
        Updates.lookup_congr position older agree agreeWritten.2.2]

/-- The values of a list of expressions depend on what the expressions read. -/
theorem evaluateEachBy_congr :
    (expressions : List Expr) → (∀ part ∈ partsEach expressions, first.AgreeAt second part) →
      evaluateEachBy (m := Except Fault) (fun _ compute => compute) first expressions =
        evaluateEachBy (fun _ compute => compute) second expressions
  | [], _ => rfl
  | expression :: rest, agree => by
      rw [partsEach, List.forall_mem_append] at agree
      exact congrArg₂ List.cons (Expr.evaluate_congr expression agree.1)
        (evaluateEachBy_congr rest agree.2)

end

end

namespace Workshop

/-- A constructor call makes no new history. -/
theorem histories_construct
    (workshop : Workshop)
    (call : Construction) :
    (workshop.construct call).histories = workshop.histories := by
  unfold Workshop.construct Workshop.build
  cases call.run workshop.table <;> rfl

/-- Every write is new, and stands on a history that was there. -/
theorem Reachable.lineage
    {workshop : Workshop}
    (reached : workshop.Reachable) :
    Updates.Lineage workshop.histories := by
  induction reached with
  | refl => constructor <;> simp
  | @tail before after earlier step inductionHypothesis =>
      cases step with
      | declare name size contents domain range =>
          exact inductionHypothesis.cons (fun _ _ _ newest => nomatch newest)
            (fun _ _ _ _ isWrite => nomatch isWrite)
      | write history indexAtHand valueAtHand =>
          refine inductionHypothesis.cons ?_ ?_
          · rintro other member _ ⟨⟩ newest
            exact Nat.lt_irrefl _
              ((Reachable.sound earlier).supports.newest_lt other member _ newest)
          · rintro _ _ _ _ ⟨⟩
            exact history
      | construct operandsAtHand history =>
          rw [histories_construct]
          exact inductionHypothesis

/--
The search for symbolic arrays succeeds on every expression at hand and finds just those
that the expression reads.  Assignments that agree on the arrays found give the
expression the same value, or the same fault.
-/
theorem evaluate_eq_of_agree
    {workshop : Workshop}
    (reached : workshop.Reachable)
    {expression : Expr}
    (built : expression ∈ workshop.expressions) :
    ∃ arrays, symbolicArrays [expression] = .ok arrays ∧
      (∀ array, array ∈ arrays ↔
        ArraySearch.IsRead ArrayDecl.isSymbolic expression.parts array) ∧
      ∀ first second : Assignment, (∀ array ∈ arrays, first array.id = second array.id) →
        expression.evaluate first = expression.evaluate second ∧
          expression.evaluateShared first = expression.evaluateShared second := by
  have sound := reached.sound
  have registered := sound.registered expression built
  obtain ⟨unbroken, found⟩ :
      (ArraySearch.run ArrayDecl.isSymbolic [expression]).broken = false ∧ _ :=
    ArraySearch.mem_found_run sound.supports reached.lineage
      (List.forall_mem_singleton.2 registered)
  rw [partsEach, partsEach, List.append_nil] at found
  have coherent : expression.Coherent := fun part isPart other isOther =>
    Expr.Registered.eq_of_id_eq sound.supports part (registered.part isPart)
      (registered.part isOther)
  refine ⟨_, if_neg (ne_true_of_eq_false unbroken), found, ?_⟩
  intro first second agree
  have same : expression.evaluate first = expression.evaluate second := by
    refine expression.evaluate_congr fun part isPart updates reads symbolic => ?_
    exact agree updates.array ((found _).2 ⟨part, isPart, updates, reads, rfl, symbolic⟩)
  refine ⟨same, ?_⟩
  rw [Expr.evaluateShared_eq first coherent, Expr.evaluateShared_eq second coherent, same]

end Workshop

namespace IndirectByte

def first : ArrayDecl := ⟨0, "a", 4, none, 32, 8⟩

def second : ArrayDecl := ⟨1, "b", 4, none, 32, 8⟩

/-- An array that nothing reads. -/
def third : ArrayDecl := ⟨2, "c", 4, none, 32, 8⟩

def zero : Expr := .const ⟨3, 32, false⟩ 0

def byte : Expr := .read ⟨4, 8, false⟩ (.root first) zero

def index : Expr := .zext ⟨5, 32, false⟩ byte

/-- The byte of the first array is written over the second. -/
def written : Updates := .write 6 zero byte (.root second)

/-- The byte says where to look. -/
def lookup : Expr := .read ⟨7, 8, false⟩ written index

def arrays : Workshop :=
  ((Workshop.declare {} "a" 4 none 32 8).declare "b" 4 none 32 8).declare "c" 4 none 32 8

def operands : Workshop :=
  [.constant 0 32, .read (.root first) zero false, .zext byte 32 false].foldl
    Workshop.construct arrays

def workshop : Workshop :=
  (operands.write (.root second) zero byte).construct (.read written index false)

theorem expressions_operands : operands.expressions = [index, byte, zero] := rfl

theorem expressions_workshop : workshop.expressions = [lookup, index, byte, zero] := rfl

theorem reachable : workshop.Reachable := by
  have declared : arrays.Reachable :=
    ((Relation.ReflTransGen.single (.declare "a" 4 none 32 8)).tail
      (.declare "b" 4 none 32 8)).tail (.declare "c" 4 none 32 8)
  have built : operands.Reachable := by
    refine Workshop.Reachable.foldl_construct declared ?_
    refine ⟨?_, ?_, ?_, ?_, ?_, ?_, trivial⟩
    all_goals simp [Construction.operands, Construction.history?]
    all_goals repeat constructor
  have rooted : .root second ∈ operands.histories := .tail _ (.head _)
  have atHand : zero ∈ operands.expressions ∧ byte ∈ operands.expressions := by
    simp [expressions_operands]
  refine (built.tail (.write rooted atHand.1 atHand.2)).tail (.construct ?_ ?_)
  all_goals simp [Construction.operands, Construction.history?]
  · exact .head _
  · exact .head _

/-- The assignments differ in the array that nothing reads. -/
def assigned (byte : UInt8) : Assignment :=
  .ofList [(first, [2]), (second, [10, 20, 30]), (third, [byte])]

theorem isRead_iff (array : ArrayDecl) :
    ArraySearch.IsRead ArrayDecl.isSymbolic lookup.parts array ↔
      array = first ∨ array = second := by
  simp [ArraySearch.IsRead, lookup, index, byte, written, zero, Expr.parts, Updates.parts,
    Expr.updates?, Updates.array, ArrayDecl.isSymbolic, first, second, or_comm]

end IndirectByte

open IndirectByte in
/-- Both arrays below a lookup are found, the one above which a write stands and the one
that says what was written; the third array does not matter. -/
theorem evaluate_eq_of_agree_lookup :
    ∃ arrays, symbolicArrays [lookup] = .ok arrays ∧
      (∀ array, array ∈ arrays ↔ array = first ∨ array = second) ∧
        assigned 1 third.id ≠ assigned 2 third.id ∧
          lookup.evaluate (assigned 1) = .ok (some 30) ∧
            lookup.evaluate (assigned 2) = .ok (some 30) := by
  have built : lookup ∈ workshop.expressions := by simp [expressions_workshop]
  obtain ⟨arrays, ran, isRead, same⟩ := Workshop.evaluate_eq_of_agree reachable built
  have found (array : ArrayDecl) : array ∈ arrays ↔ array = first ∨ array = second :=
    (isRead array).trans (isRead_iff array)
  have agree : ∀ array ∈ arrays, assigned 1 array.id = assigned 2 array.id := by
    intro array member
    rcases (found array).1 member with rfl | rfl <;> rfl
  have value : lookup.evaluate (assigned 1) = .ok (some 30) := rfl
  exact ⟨arrays, ran, found, by decide, value, (same _ _ agree).1.symm.trans value⟩

end Diverge
