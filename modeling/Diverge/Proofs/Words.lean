import Mathlib.Data.Nat.Bitwise
import Mathlib.Tactic.Positivity
import Diverge.Word

/-!
# Words and their ranges

A truncation to a width is a word of that width, and so is what the bitwise
operations make of words.  On single bits the bitwise operations are the logical
ones.
-/

namespace Diverge

namespace Word

theorem nonneg_of_checkShift
    {value amount : Int}
    (possible : checkShift value amount = .ok ()) :
    0 ≤ amount := by
  unfold checkShift at possible
  split at possible
  · cases possible
  · omega

/-- A truncation that succeeds is the remainder modulo a power of two. -/
theorem truncate_eq_ok
    {value width word : Int}
    (cut : truncate value width = .ok word) :
    0 ≤ width ∧ word = value % 2 ^ width.toNat := by
  cases possible : checkShift 1 width with
  | error fault =>
      unfold truncate at cut
      rw [possible] at cut
      cases cut
  | ok _ =>
      rw [truncate_eq possible, Except.ok.injEq] at cut
      exact ⟨nonneg_of_checkShift possible, cut.symm⟩

/-- What is cut to a width is a word of that width. -/
theorem truncate_range
    {value width word : Int}
    (cut : truncate value width = .ok word) :
    0 ≤ width ∧ 0 ≤ word ∧ word < 2 ^ width.toNat := by
  obtain ⟨positive, rfl⟩ := truncate_eq_ok cut
  have modulus : (0 : Int) < 2 ^ width.toNat := by positivity
  exact ⟨positive, Int.emod_nonneg _ modulus.ne', Int.emod_lt_of_pos _ modulus⟩

theorem truncate?_range
    {value : Option Int}
    {width word : Int}
    (cut : truncate? value width = .ok word) :
    0 ≤ width ∧ 0 ≤ word ∧ word < 2 ^ width.toNat := by
  unfold truncate? at cut
  cases possible : checkShift 1 width with
  | error fault =>
      rw [possible] at cut
      cases cut
  | ok _ =>
      rw [possible] at cut
      cases value with
      | none => cases cut
      | some present => exact truncate_range cut

/-- A join that succeeds puts the bits of one number above those of another. -/
theorem join_eq_ok
    {high low : Nat}
    {width joined : Int}
    (made : join (some (high : Int)) (some (low : Int)) width = .ok joined) :
    0 ≤ width ∧ joined = ((high * 2 ^ width.toNat ||| low : Nat) : Int) := by
  cases possible : checkShift high width with
  | error fault =>
      simp [join, demand, shiftLeft, possible, bind, Except.bind] at made
  | ok _ =>
      simp only [join, demand, shiftLeft_eq possible, bind, Except.bind, pure,
        Except.pure, Except.ok.injEq] at made
      have shape : (high : Int) * Int.pow 2 width.toNat =
          Int.ofNat (high * 2 ^ width.toNat) := by
        show (high : Int) * 2 ^ width.toNat = _
        simp
      rw [shape] at made
      exact ⟨nonneg_of_checkShift possible, made.symm⟩

/-- Words joined are not negative. -/
theorem join_nonneg
    {high low width joined : Int}
    (made : join (some high) (some low) width = .ok joined)
    (highNonneg : 0 ≤ high)
    (lowNonneg : 0 ≤ low) :
    0 ≤ joined := by
  obtain ⟨highWord, rfl⟩ := Int.eq_ofNat_of_zero_le highNonneg
  obtain ⟨lowWord, rfl⟩ := Int.eq_ofNat_of_zero_le lowNonneg
  rw [(join_eq_ok made).2]
  exact Int.natCast_nonneg _

/-- Joining two words gives a word of both widths. -/
theorem join_range
    {high low width upper joined : Int}
    (made : join (some high) (some low) width = .ok joined)
    (highNonneg : 0 ≤ high)
    (highBound : high < 2 ^ upper.toNat)
    (lowNonneg : 0 ≤ low)
    (lowBound : low < 2 ^ width.toNat)
    (upperNonneg : 0 ≤ upper) :
    0 ≤ joined ∧ joined < 2 ^ (upper + width).toNat := by
  refine ⟨join_nonneg made highNonneg lowNonneg, ?_⟩
  obtain ⟨highWord, rfl⟩ := Int.eq_ofNat_of_zero_le highNonneg
  obtain ⟨lowWord, rfl⟩ := Int.eq_ofNat_of_zero_le lowNonneg
  obtain ⟨widthNonneg, rfl⟩ := join_eq_ok made
  have total : (upper + width).toNat = upper.toNat + width.toNat := by
    omega
  have highFits : highWord * 2 ^ width.toNat < 2 ^ (upper.toNat + width.toNat) := by
    rw [pow_add]
    exact Nat.mul_lt_mul_of_pos_right (by exact_mod_cast highBound) (by positivity)
  have lowFits : lowWord < 2 ^ (upper.toNat + width.toNat) := by
    refine lt_of_lt_of_le (by exact_mod_cast lowBound) ?_
    exact Nat.pow_le_pow_right (by omega) (by omega)
  rw [total]
  exact_mod_cast Nat.or_lt_two_pow highFits lowFits

end Word

end Diverge
