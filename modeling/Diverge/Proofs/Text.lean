import Diverge.Text.Integer

/-!
# Texts of integers and of lists

The text of an integer is a sign, if there is one, and its decimal digits.  It has no other
characters, so any other character ends it, and it tells the integer.  `Integer.text?` gives
this text or none.

A list is written with a separator between its elements, which is a separator before all of
them but the first (`intercalate_cons`).
-/

namespace Diverge

namespace Integer

/-! ## The text of an integer -/

theorem toList_toString
    (value : Int) :
    (toString value).toList =
      if 0 ≤ value then Nat.toDigits 10 value.toNat else '-' :: Nat.toDigits 10 (-value).toNat := by
  rw [Int.toString_eq_repr, Int.repr_eq_if]
  split
  · exact Nat.toList_repr
  · rw [String.toList_append, Nat.toList_repr]
    rfl

/-- A character that is neither a digit nor the sign does not occur in the text of an integer. -/
theorem notMem_toString
    {char : Char}
    (noDigit : char.isDigit = false)
    (noSign : char ≠ '-')
    (value : Int) :
    char ∉ (toString value).toList := by
  have digits (number : Nat) : char ∉ Nat.toDigits 10 number := by
    intro member
    rw [Nat.isDigit_of_mem_toDigits (by decide) (by decide) member] at noDigit
    cases noDigit
  rw [toList_toString]
  split
  · exact digits _
  · exact List.not_mem_cons_of_ne_of_not_mem noSign (digits _)

/-- Digits tell the number that they stand for. -/
theorem toDigits_inj
    {first second : Nat}
    (same : Nat.toDigits 10 first = Nat.toDigits 10 second) :
    first = second := by
  have read (number : Nat) : Nat.ofDigitChars 10 (Nat.toDigits 10 number) 0 = number :=
    Nat.ofDigitChars_toDigits (by decide) (by decide)
  rw [← read first, ← read second, same]

/-- The sign is not taken for a digit, so the text of an integer tells the integer. -/
theorem toString_inj
    {first second : Int}
    (same : toString first = toString second) :
    first = second := by
  have noSign (number other : Nat) : '-' :: Nat.toDigits 10 other ≠ Nat.toDigits 10 number := by
    intro equal
    have isDigit := Nat.isDigit_of_mem_toDigits (by decide) (by decide)
      (equal ▸ List.mem_cons_self : '-' ∈ Nat.toDigits 10 number)
    exact absurd isDigit (by decide)
  have texts := congrArg String.toList same
  rw [toList_toString, toList_toString] at texts
  split at texts <;> split at texts
  · have numbers := toDigits_inj texts
    omega
  · exact absurd texts.symm (noSign _ _)
  · exact absurd texts (noSign _ _)
  · have numbers := toDigits_inj (List.cons.inj texts).2
    omega

/-- Numbers of two digits have not too many. -/
theorem lt_limit
    {number : Nat}
    (small : number < 100) :
    number < limit := by
  have least : 100 ≤ limit := by decide +kernel
  exact Nat.lt_of_lt_of_le small least

/-- An integer has its decimal text if it has not too many digits, and else none. -/
theorem text?_eq_some_iff
    {value : Int}
    {text : String} :
    text? value = some text ↔ value.natAbs < limit ∧ text = toString value := by
  unfold text?
  split
  · rename_i short
    simp [short, eq_comm]
  · rename_i long
    simp [long]

end Integer

/-! ## Separators -/

/-- Every element but the first has the separator before it. -/
theorem intercalate_cons
    {α : Type}
    (separator text : List α)
    (rest : List (List α)) :
    separator.intercalate (text :: rest) = text ++ rest.flatMap (separator ++ ·) := by
  induction rest generalizing text with
  | nil => simp
  | cons next rest inductionHypothesis =>
      rw [List.intercalate_cons_cons, inductionHypothesis, List.flatMap_cons,
        List.append_assoc, List.append_assoc]

end Diverge
