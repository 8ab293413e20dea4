/-!
# Revision numbers

A revision is an integer.  Zero stands for what all revisions share and `merged` for a value that
several revisions were merged into; the numbers strictly between them are real revisions.
-/

namespace Diverge

namespace Revision

/-- What all revisions share. -/
def shared : Int := 0

/-- What several revisions were merged into. -/
def merged : Int := 0xffffffffffffffff

/-- A number that names one revision of the program. -/
def isReal (revision : Int) : Bool :=
  shared < revision && revision < merged

/-- Of two numbers, the first unless only the second is real. -/
def pick (first second : Int) : Int :=
  if isReal second && !isReal first then second else first

theorem pick_of_isReal {first second : Int} (real : isReal first) :
    pick first second = first := by
  simp [pick, real]

@[simp]
theorem pick_shared (first : Int) : pick first shared = first := by
  simp [pick, isReal]

end Revision

end Diverge
