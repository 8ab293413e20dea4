/-!
# Ordered associations

An association of keys with values that remembers the order in which keys were first put in.
Putting a key that is present replaces its value and keeps its place; a key that was erased comes
back at the end.
-/

namespace Diverge

/-- Keys with values, in the order of first insertion. -/
abbrev Assoc (κ ν : Type) := List (κ × ν)

namespace Assoc

variable {κ ν : Type} [DecidableEq κ]

/-- The value of a key. -/
def get? (entries : Assoc κ ν) (key : κ) : Option ν :=
  match entries with
  | [] => none
  | (other, value) :: rest => if other = key then some value else get? rest key

/-- Give a key a value. -/
def put (entries : Assoc κ ν) (key : κ) (value : ν) : Assoc κ ν :=
  match entries with
  | [] => [(key, value)]
  | (other, old) :: rest =>
      if other = key then (key, value) :: rest else (other, old) :: put rest key value

/-- Drop a key. -/
def erase (entries : Assoc κ ν) (key : κ) : Assoc κ ν :=
  match entries with
  | [] => []
  | (other, value) :: rest =>
      if other = key then erase rest key else (other, value) :: erase rest key

@[simp]
theorem get?_put_self (entries : Assoc κ ν) (key : κ) (value : ν) :
    (put entries key value).get? key = some value := by
  induction entries with
  | nil => simp [put, get?]
  | cons entry rest inductionHypothesis =>
      by_cases same : entry.1 = key <;> simp [put, get?, same, inductionHypothesis]

theorem get?_put_of_ne (entries : Assoc κ ν) {key other : κ} (different : other ≠ key)
    (value : ν) :
    (put entries key value).get? other = entries.get? other := by
  induction entries with
  | nil => simp [put, get?, Ne.symm different]
  | cons entry rest inductionHypothesis =>
      by_cases same : entry.1 = key
      · simp [put, get?, same, Ne.symm different]
      · simp [put, get?, same, inductionHypothesis]

end Assoc

end Diverge
