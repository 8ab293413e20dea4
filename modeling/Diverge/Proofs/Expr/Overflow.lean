import Diverge.Proofs.Expr.Reduced

/-!
# Values that do not fit their width

The constructors make a zero extension that is narrower than its operand only if they are
asked for a multi node; otherwise they extract.  The extension passes the value of its
operand on as it is.  If the value of an expression that was built does not fit its width,
then a value overflowed at such a node or at a read of a symbolic array whose elements are
less than bytes, and was passed on from there (`Workshop.value_fits`).
-/

namespace Diverge

/--
The value of an expression that was built is not negative, and below the power of two of its
width unless the expression exposes a node whose value overflows: a multi zero extension that
is narrower than its operand, or an element of a symbolic array of less than eight bits.
-/
theorem Workshop.value_fits
    {workshop : Workshop}
    (reached : workshop.Reachable)
    {expression : Expr}
    (built : expression ∈ workshop.expressions)
    (balanced : expression.Balanced)
    (known : expression.Throughout fun node =>
      ∀ updates ∈ node.updates?, updates.array.KnownFit)
    (assignment : Assignment)
    {outcome : Option Int}
    (evaluated : expression.evaluate assignment = .ok outcome) :
    ∃ word, outcome = some word ∧ 0 ≤ word ∧
      (word < 2 ^ expression.width.toNat ∨
        ∃ part, expression.Exposes part ∧ part.Overflows assignment) := by
  have proper := (reached.sound.registered expression built).proper
  have widening := reached.widening.expressions expression built
  refine expression.isWordUnless_evaluate (fun part isPart => ?_) evaluated
  exact
    { measured := (proper part isPart).measured
      aligned := (balanced part isPart).2
      width_pos := (balanced part isPart).1
      widening := widening part isPart
      known := known part isPart }

namespace NarrowExtension

def array : ArrayDecl :=
  { id := 0, name := "a", size := 4, contents := none, domain := 32, range := 8 }

def index : Expr := .const ⟨1, 32, false⟩ 0

def byte : Expr := .read ⟨2, 8, false⟩ (.root array) index

/-- The byte, extended to four bits. -/
def narrow : Expr := .zext ⟨3, 4, true⟩ byte

/-- The four bits above a byte. -/
def wide : Expr := .concat ⟨4, 12, true⟩ narrow byte

def workshop : Workshop :=
  [.constant 0 32, .read (.root array) index false, .zext byte 4 true,
    .concat narrow byte false].foldl
    Workshop.construct (Workshop.declare {} "a" 4 none 32 8)

theorem reachable : workshop.Reachable := by
  refine Workshop.Reachable.foldl_construct (.single (.declare "a" 4 none 32 8)) ?_
  refine ⟨?_, ?_, ?_, ?_, ?_, ?_, ?_, ?_, trivial⟩
  all_goals simp [Construction.operands, Construction.history?]
  all_goals repeat constructor

def assigned : Assignment := .ofList [(array, [255])]

end NarrowExtension

open NarrowExtension in
/-- Four bits of a byte of ones, put above the byte, make a value of sixteen bits. -/
theorem value_fits_narrowExtension :
    wide.width = 12 ∧ wide.evaluate assigned = .ok (some 65535) ∧
      ∃ part, wide.Exposes part ∧ part.Overflows assigned := by
  have evaluated : wide.evaluate assigned = .ok (some 65535) := rfl
  have built : wide ∈ workshop.expressions := List.mem_cons_self
  have balanced : wide.Balanced := by
    simp [wide, narrow, byte, index, Expr.Balanced, Expr.Aligned, Updates.Matched, Expr.width,
      Expr.tag]
  have known : wide.Throughout fun node =>
      ∀ updates ∈ node.updates?, updates.array.KnownFit := by
    simp [wide, narrow, byte, index, Expr.updates?, Updates.array, array, ArrayDecl.KnownFit]
  obtain ⟨word, isWord, _, fits | spills⟩ :=
    Workshop.value_fits reachable built balanced known assigned evaluated
  · cases isWord
    exact absurd fits (by decide)
  · exact ⟨rfl, evaluated, spills⟩

end Diverge
