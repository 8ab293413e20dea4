import Diverge.Sequence

/-!
# What is found in a sequence and put into it

What is fetched is an element, and after replacing one element the others are those
that were there.  At an index that is not negative both speak of the element at
that position.
-/

namespace Diverge

namespace Sequence

variable {α : Type} {elements replaced : List α} {index : Int} {fault : Fault} {element : α}

theorem get?_of_fetch
    (found : fetch elements index fault = .ok element) :
    get? elements index = some element := by
  unfold fetch at found
  cases got : get? elements index with
  | none =>
      rw [got] at found
      cases found
  | some other =>
      rw [got] at found
      cases found
      rfl

theorem set?_of_replace
    (ran : replace elements index element = .ok replaced) :
    set? elements index element = some replaced := by
  unfold replace at ran
  cases got : set? elements index element with
  | none =>
      rw [got] at ran
      cases ran
  | some other =>
      rw [got] at ran
      cases ran
      rfl

theorem mem_of_fetch
    (found : fetch elements index fault = .ok element) :
    element ∈ elements := by
  obtain ⟨position, _, isThere⟩ := Option.bind_eq_some_iff.1 (get?_of_fetch found)
  exact List.mem_of_getElem? isThere

theorem mem_of_set?
    {other : α}
    (ran : set? elements index element = some replaced)
    (member : other ∈ replaced) :
    other ∈ elements ∨ other = element := by
  obtain ⟨position, _, rfl⟩ := Option.map_eq_some_iff.1 ran
  exact List.mem_or_eq_of_mem_set member

theorem mem_of_replace
    {other : α}
    (ran : replace elements index element = .ok replaced)
    (member : other ∈ replaced) :
    other ∈ elements ∨ other = element :=
  mem_of_set? (set?_of_replace ran) member

variable {position : Nat}

theorem position?_natCast_eq_some
    {length found : Nat}
    (named : position? length position = some found) :
    found = position ∧ position < length := by
  have inside := position?_lt named
  by_cases below : position < length
  · rw [position?_natCast below] at named
    cases named
    exact ⟨rfl, below⟩
  · simp [position?] at named
    omega

theorem getElem?_of_fetch
    (found : fetch elements position fault = .ok element) :
    elements[position]? = some element := by
  obtain ⟨other, named, isThere⟩ := Option.bind_eq_some_iff.1 (get?_of_fetch found)
  rw [(position?_natCast_eq_some named).1] at isThere
  exact isThere

theorem fetch_of_getElem?
    (isThere : elements[position]? = some element) :
    fetch elements position fault = .ok element := by
  obtain ⟨inside, _⟩ := List.getElem?_eq_some_iff.1 isThere
  simp [fetch, get?, position?_natCast inside, isThere]

/-- A replacement that succeeds is at a place that there is. -/
theorem eq_set_of_replace
    (ran : replace elements position element = .ok replaced) :
    position < elements.length ∧ replaced = elements.set position element := by
  obtain ⟨other, named, same⟩ := Option.map_eq_some_iff.1 (set?_of_replace ran)
  obtain ⟨rfl, inside⟩ := position?_natCast_eq_some named
  exact ⟨inside, same.symm⟩

theorem replace_of_lt
    (inside : position < elements.length)
    (element : α) :
    replace elements position element = .ok (elements.set position element) := by
  simp [replace, set?, position?_natCast inside]

/-! ## The last element -/

theorem position?_last
    {length : Nat}
    (inside : 0 < length) :
    position? length (-1) = some (length - 1) := by
  grind [position?]

/-- An index of minus one names the last element. -/
theorem get?_last
    (elements : List α) :
    get? elements (-1) = elements.getLast? := by
  unfold get?
  cases elements with
  | nil => rfl
  | cons first rest =>
      have inside : 0 < (first :: rest).length := Nat.succ_pos _
      rw [position?_last inside, List.getLast?_eq_getElem?]
      rfl

/-- Setting it replaces the last element. -/
theorem set?_last
    (found : elements.getLast? = some element)
    (changed : α) :
    set? elements (-1) changed = some (elements.dropLast ++ [changed]) := by
  obtain ⟨earlier, rfl⟩ := List.getLast?_eq_some_iff.1 found
  unfold set?
  rw [position?_last (by simp)]
  simp

end Sequence

end Diverge
