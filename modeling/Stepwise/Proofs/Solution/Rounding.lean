import Stepwise.Proofs.Number.Floor
import Stepwise.Proofs.Number.Operations
import Stepwise.Solution.Move

/-!
# Results rounded to hundredths

A result is the value times a hundred, a half added, rounded down, by a hundred. Each of
the three operations on doubles gives the nearest to what it is meant for:

> `roundResult_near`: a finite result is a number of hundredths, rounded, no further from
> the value than half a hundredth and the error of two operations.

Halves need few bits. So where the value is a number of half hundredths nothing is lost
before the last operation, and a half goes upward (`roundResult_half`). What is not finite
stays so (`isFinite_roundResult`).
-/

namespace Stepwise.Binary

/-- **Rounding makes nothing finite.** -/
theorem isFinite_roundResult {x : Float} (h : Number.isFinite x = false) :
    Number.isFinite (roundResult x) = false :=
  isFinite_div (isFinite_floor (isFinite_add (isFinite_mul h 100.0) 0.5)) 100.0

theorem exact_hundred : exact 100.0 = 100 :=
  exact_of_units (n := 100) (by decide +kernel) (by decide +kernel)

theorem exact_half : exact 0.5 = 1 / 2 := by
  have hunits : unitsPerOne = units (rank 0.5) * 2 := by decide +kernel
  have hne : ((units (rank 0.5) : Nat) : ℚ) ≠ 0 := Nat.cast_ne_zero.2 (by decide +kernel)
  have hsign : isNegative 0.5 = false := by decide +kernel
  unfold exact
  rw [hsign, if_neg Bool.false_ne_true, one_mul, hunits, Nat.cast_mul, ← div_div, div_self hne,
    Nat.cast_ofNat]

section RoundResult

variable {x : Float}

/-- The three operations of rounding, each the nearest to what it is meant for. -/
theorem rounds_roundResult (h : Number.isFinite (roundResult x) = true) :
    Rounds (exact (x * 100.0)) (100 * exact x) ∧
      Rounds (exact (x * 100.0 + 0.5)) (exact (x * 100.0) + 1 / 2) ∧
      Rounds (exact (roundResult x)) (⌊exact (x * 100.0 + 0.5)⌋ / 100) := by
  -- What is not finite stays so, hence all that a finite result was made of is finite.
  have hfinite {y z : Float} (hyz : Number.isFinite y = false → Number.isFinite z = false)
      (hz : Number.isFinite z = true) : Number.isFinite y = true :=
    Bool.eq_true_of_not_eq_false fun hy => Bool.noConfusion (hz.symm.trans (hyz hy))
  have hfloor := hfinite (isFinite_div · 100.0) h
  have hsum := hfinite isFinite_floor hfloor
  have hproduct := hfinite (isFinite_add · 0.5) hsum
  have hx := hfinite (isFinite_mul · 100.0) hproduct
  have hquotient := rounds_div hfloor (by decide +kernel) (by decide +kernel) h
  rw [exact_floor, exact_hundred] at hquotient
  refine ⟨?_, ?_, hquotient⟩
  · rw [mul_comm, ← exact_hundred]
    exact rounds_mul hx (by decide +kernel) hproduct
  · rw [← exact_half]
    exact rounds_add hproduct (by decide +kernel) hsum

/-- **A result is a number of hundredths**, as near as doubles come to it, and no further
from the value than half a hundredth and the error of two operations. -/
theorem roundResult_near (h : Number.isFinite (roundResult x) = true) :
    ∃ n : Int, Rounds (exact (roundResult x)) (n / 100) ∧
      |n / 100 - exact x| ≤ 1 / 200 + (|exact x| + 1) / 2 ^ 50 := by
  obtain ⟨hproduct, hsum, hquotient⟩ := rounds_roundResult h
  refine ⟨_, hquotient, ?_⟩
  have htiny : (2 : ℚ) ^ (-1075 : Int) ≤ 1 / 2 ^ 54 := by
    have hle : (2 : ℚ) ^ (-1075 : Int) ≤ 2 ^ (-54 : Int) :=
      (zpow_le_zpow_iff_right₀ one_lt_two).2 (by decide)
    exact hle.trans_eq (by norm_num)
  have hproduct := hproduct.abs_sub_le
  have hsum := hsum.abs_sub_le
  have hsize : |exact (x * 100.0) + 1 / 2| ≤ |exact (x * 100.0) - 100 * exact x| +
      100 * |exact x| + 1 / 2 := by
    have hhalf := abs_add_le (exact (x * 100.0)) (1 / 2)
    have hparts := abs_sub_abs_le_abs_sub (exact (x * 100.0)) (100 * exact x)
    rw [abs_mul, abs_of_pos (by norm_num : (0 : ℚ) < 100)] at hparts
    rw [abs_of_pos (by norm_num : (0 : ℚ) < 1 / 2)] at hhalf
    linarith
  rw [abs_mul, abs_of_pos (by norm_num : (0 : ℚ) < 100)] at hproduct
  -- The error of both operations, which the division by a hundred makes as much smaller.
  have herror : |exact (x * 100.0 + 0.5) - (100 * exact x + 1 / 2)| ≤ (|exact x| + 1) / 2 ^ 45 := by
    have hsplit := abs_add_le (exact (x * 100.0 + 0.5) - (exact (x * 100.0) + 1 / 2))
      (exact (x * 100.0) - 100 * exact x)
    have heq : exact (x * 100.0 + 0.5) - (exact (x * 100.0) + 1 / 2) +
        (exact (x * 100.0) - 100 * exact x) =
          exact (x * 100.0 + 0.5) - (100 * exact x + 1 / 2) := by ring
    rw [heq] at hsplit
    have hnonneg := abs_nonneg (exact x)
    linarith
  have hlow := Int.floor_le (exact (x * 100.0 + 0.5))
  have hhigh := Int.lt_floor_add_one (exact (x * 100.0 + 0.5))
  have hnonneg := abs_nonneg (exact x)
  obtain ⟨hbelow, habove⟩ := abs_le.1 herror
  rw [abs_le]
  constructor
  · linarith
  · linarith

/-- **Of two hundredths equally near the upper is taken**: where the value is a whole
number of half hundredths, no operation before the last has an error. -/
theorem roundResult_half (h : Number.isFinite (roundResult x) = true) {k : Int}
    (hk : 100 * exact x = k / 2) (hlt : |k| < 2 ^ 52) :
    Rounds (exact (roundResult x)) (⌊100 * exact x + 1 / 2⌋ / 100) := by
  obtain ⟨hproduct, hsum, hquotient⟩ := rounds_roundResult h
  have htwo : (2 : ℚ) ^ (-1 : Int) = 1 / 2 := by norm_num
  have hbits : (2 : ℚ) ^ (-1 + 53 : Int) = 2 ^ 52 := rfl
  have hbound : (|k| : ℚ) < 2 ^ 52 := by exact_mod_cast hlt
  obtain ⟨hlow, hhigh⟩ := abs_lt.1 hbound
  have hproduct' : exact (x * 100.0) = k / 2 := by
    rw [hk] at hproduct
    refine hproduct.eq_of_bits (i := k) (u := -1) ?_ (by decide) ?_
    · rw [htwo, mul_one_div]
    · rw [hbits, abs_lt]
      constructor <;> linarith
  have hsum' : exact (x * 100.0 + 0.5) = 100 * exact x + 1 / 2 := by
    rw [hproduct'] at hsum
    rw [hk]
    refine hsum.eq_of_bits (i := k + 1) (u := -1) ?_ (by decide) ?_
    · rw [htwo, mul_one_div, Int.cast_add, Int.cast_one, add_div]
    · rw [hbits, abs_lt]
      constructor <;> linarith
  rw [← hsum']
  exact hquotient

example : roundResult 0.125 = 0.13 ∧ roundResult (-0.125) = -0.12 := by decide +kernel

end RoundResult

end Stepwise.Binary
