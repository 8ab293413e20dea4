import Diverge.Fault
import Diverge.Expr.Parts

/-!
# What a walk finds

`entered` lists the nodes of some expressions in the order in which a walk enters them.
`symbolicArrays` and `constantArrays` list the arrays that some expressions depend on, through
operands and through the writes of histories, each once and in the order of their discovery.  A
read that lacks its history is a fault wherever the history is asked for.
-/

namespace Diverge

/-- Note the node; with `histories`, walk what its history has written as well. -/
def noteNode (histories : Bool) : Hook (Array Expr) := fun nodes node =>
  (nodes.push node, if histories then node.written else [])

theorem noteNode_fromHistory (histories : Bool) : (noteNode histories).FromHistory := by
  intro state node extra member
  cases histories <;> simp_all [noteNode]

/-- The nodes of some expressions, in the order in which a walk enters them. -/
def entered (histories : Bool) (roots : List Expr) : List Expr :=
  (walkParts (noteNode histories) (noteNode_fromHistory histories) #[] roots).state.toList

/--
The nodes that are entered up to the first one whose history is wanted and lacking, and the fault
that this is.
-/
def visit (histories : Bool) (roots : List Expr) : List Expr × Option Fault :=
  let nodes := entered histories roots
  match nodes.findIdx? fun node => histories && node.lacksHistory with
  | none => (nodes, none)
  | some position => (nodes.take (position + 1), some .absentUpdates)

/-- What a search for arrays has found, and the writes it has walked. -/
structure ArraySearch where
  /-- The arrays found, in order of discovery. -/
  found : List ArrayDecl := []
  /-- The identities of the writes walked. -/
  walked : Std.HashSet Nat := ∅
  /-- Whether a read without a history was entered. -/
  broken : Bool := false

namespace ArraySearch

/-- Note an array that is wanted and has not been found before. -/
def note (wanted : ArrayDecl → Bool) (array : ArrayDecl) (found : List ArrayDecl) :
    List ArrayDecl :=
  if wanted array && !found.contains array then found ++ [array] else found

/-- Note the array of a read and walk what its history has written. -/
def hook (wanted : ArrayDecl → Bool) : Hook ArraySearch := fun search node =>
  match node with
  | .read _ updates _ =>
      let further := updates.unwalked search.walked
      ({ search with found := note wanted updates.array search.found, walked := further.2 },
        further.1.flatMap fun (index, value) => [value, index])
  | node => ({ search with broken := search.broken || node.lacksHistory }, [])

theorem hook_fromHistory (wanted : ArrayDecl → Bool) : (hook wanted).FromHistory := by
  intro search node extra member
  cases node <;> simp only [hook, List.not_mem_nil] at member
  obtain ⟨write, inside, which⟩ := List.mem_flatMap.1 member
  have both := Updates.mem_written_of_mem_unwalked _ _ inside
  simp only [List.mem_cons, List.not_mem_nil, or_false] at which
  rcases which with rfl | rfl
  · exact both.2
  · exact both.1

end ArraySearch

/-- Search some expressions for the wanted arrays. -/
def ArraySearch.run (wanted : ArrayDecl → Bool) (roots : List Expr) : ArraySearch :=
  (walkParts (hook wanted) (hook_fromHistory wanted) {} roots).state

/-- The wanted arrays among those that some expressions depend on. -/
def arraysWhere (wanted : ArrayDecl → Bool) (roots : List Expr) :
    Except Fault (List ArrayDecl) :=
  let search := ArraySearch.run wanted roots
  if search.broken then .error (.absent "root") else .ok search.found

/-- The symbolic arrays that some expressions depend on. -/
def symbolicArrays (roots : List Expr) : Except Fault (List ArrayDecl) :=
  arraysWhere ArrayDecl.isSymbolic roots

/-- The constant arrays that some expressions depend on. -/
def constantArrays (roots : List Expr) : Except Fault (List ArrayDecl) :=
  arraysWhere ArrayDecl.isConstant roots

end Diverge
