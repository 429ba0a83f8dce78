import Stepwise.Proofs.Number.Rounding

/-!
# Sums, products and quotients of doubles

The operations on parts have bits enough for their result to be rounded: a sum is given
the bits that it lacks, a product of two doubles has them unless both are small, and a
quotient is taken of a numerator that was shifted far enough. So

> `rounds_add`, `rounds_mul`, `rounds_div`: a finite result is the nearest to what the
> operation gives for the numbers that the doubles stand for.

Such a result is as good as exact: its error is less than a part in `2 ^ 53` or of the
order of the smallest number (`Rounds.abs_sub_le`), and there is none if the exact
number has no more bits than a double (`Rounds.eq_of_bits`).
-/

namespace Stepwise.Binary

open Float.Model (Format UnpackedFloat totalExponent)
open Float.Model.UnpackedFloat

/-! ## Operations on parts -/

theorem nearest_zero (s : Sign) : Nearest (.zero s) 0 := by
  refine ⟨trivial, -1074, le_max_right _ _, ⟨0, ?_⟩, ?_⟩
  · rw [Int.cast_zero, zero_mul]
    rfl
  · show |(0 : ℚ) - 0| ≤ _
    rw [sub_zero, abs_zero]
    exact div_nonneg (zpow_pos two_pos _).le two_pos.le

/-- A double is nearest to itself. -/
theorem nearest_value {f : UnpackedFloat} (hf : Canonical f) : Nearest f (value f) := by
  cases f with
  | infinity s => exact hf.elim
  | notANumber => exact hf.elim
  | zero s => exact nearest_zero s
  | finite s m e hm =>
    refine ⟨hf, rounds_of_grid s (Nat.cast_nonneg m) (hf.normal.imp_left fun h => ?_) ?_⟩
    · exact_mod_cast h
    · rw [sub_self, abs_zero]
      norm_num

theorem le_gridExponent {m : Nat} {e : Int} (h : 2 ^ 52 ≤ m ∨ e ≤ -1074) :
    e ≤ gridExponent m e := by
  unfold gridExponent
  rcases h with h | h
  · have hlog : 52 ≤ m.log2 := (Nat.le_log2 (by omega)).2 h
    omega
  · exact le_max_of_le_right h

theorem represents_exact (m : Nat) :
    Represents (ExtendedMantissa.ofMantissaAndAccuracy m .exact) m := rfl

theorem signed_mul (s s' : Sign) (v w : ℚ) :
    signed (s * s') (v * w) = signed s v * signed s' w := by
  cases s with
  | positive =>
    cases s' with
    | positive => rfl
    | negative => exact (mul_neg v w).symm
  | negative =>
    cases s' with
    | positive => exact (neg_mul v w).symm
    | negative => exact (neg_mul_neg v w).symm

/-- The product of two doubles is the nearest to the product of their values. -/
theorem nearest_mul {f g : UnpackedFloat} (hf : Canonical f) (hg : Canonical g) :
    Nearest (mul Format.binary64 f g) (value f * value g) := by
  cases f with
  | infinity s => exact hf.elim
  | notANumber => exact hf.elim
  | zero s =>
    have hzero : value (.zero s) * value g = 0 := zero_mul _
    rw [hzero]
    cases g with
    | infinity s' => exact hg.elim
    | notANumber => exact hg.elim
    | zero s' => exact nearest_zero _
    | finite s' m' e' hm' => exact nearest_zero _
  | finite s m e hm =>
    cases g with
    | infinity s' => exact hg.elim
    | notANumber => exact hg.elim
    | zero s' =>
      have hzero : value (.finite s m e hm) * value (.zero s') = 0 := mul_zero _
      rw [hzero]
      exact nearest_zero _
    | finite s' m' e' hm' =>
      -- A full significand fills the product; of two small numbers it is below the grid.
      have hgrid : e + e' ≤ gridExponent (m * m') (e + e') := by
        refine le_gridExponent ?_
        rcases hf.normal with hlarge | he
        · exact .inl (hlarge.trans (Nat.le_mul_of_pos_right m hm'))
        · rcases hg.normal with hlarge | he'
          · exact .inl (hlarge.trans (Nat.le_mul_of_pos_left m' hm))
          · exact .inr (by omega)
      have hvalue : signed s (m * 2 ^ e) * signed s' (m' * 2 ^ e') =
          signed (s * s') ((m * m' : Nat) * 2 ^ (e + e')) := by
        rw [← signed_mul, Nat.cast_mul, zpow_add₀ two_ne_zero, mul_mul_mul_comm]
      show Nearest (roundWithAccuracy _ _ _ _ _) (signed s _ * signed s' _)
      rw [hvalue]
      exact nearest_roundWithAccuracy _ (represents_exact _) hgrid

theorem log2_mul_two_pow {m : Nat} (hm : 0 < m) (n : Nat) : (m * 2 ^ n).log2 = m.log2 + n := by
  obtain ⟨hlow, hhigh⟩ := (Nat.log2_eq_iff hm.ne').1 rfl
  have hpow : 0 < 2 ^ n := Nat.two_pow_pos n
  rw [Nat.log2_eq_iff (Nat.mul_pos hm hpow).ne', Nat.add_right_comm, pow_add _ _ n, pow_add _ _ n]
  exact ⟨Nat.mul_le_mul_right _ hlow, Nat.mul_lt_mul_of_pos_right hhigh hpow⟩

/-- A significand with bits added in front keeps its value. -/
theorem mul_two_pow_mul_zpow (m n : Nat) (e : Int) :
    ((m * 2 ^ n : Nat) : ℚ) * 2 ^ (e - n) = m * 2 ^ e := by
  rw [Nat.cast_mul, Nat.cast_pow, Nat.cast_ofNat, zpow_sub₀ two_ne_zero, zpow_natCast, mul_assoc,
    mul_div_cancel₀ _ (pow_ne_zero n two_ne_zero)]

/-- What may have fewer bits than a double is given more before it is rounded. -/
theorem nearest_round (s : Sign) {m : Nat} (hm : 0 < m) (e : Int) :
    Nearest (UnpackedFloat.round Format.binary64 s m e) (signed s (m * 2 ^ e)) := by
  have hgrid : e - (e - gridExponent m e).toNat ≤
      gridExponent (m * 2 ^ (e - gridExponent m e).toNat) (e - (e - gridExponent m e).toNat) := by
    have hsame : ∀ n : Nat, gridExponent (m * 2 ^ n) (e - n) = gridExponent m e := by
      intro n
      unfold gridExponent
      rw [log2_mul_two_pow hm]
      omega
    rw [hsame]
    omega
  unfold UnpackedFloat.round decreaseExponent
  rw [targetExponent_eq]
  dsimp only
  rw [Nat.shiftLeft_eq, ← mul_two_pow_mul_zpow m (e - gridExponent m e).toNat e]
  exact nearest_roundWithAccuracy s (represents_exact _) hgrid

theorem nearest_normalize (n e : Int) (s : Sign) :
    Nearest (UnpackedFloat.normalize Format.binary64 n e s) (n * 2 ^ e) := by
  unfold UnpackedFloat.normalize
  split
  · next h =>
    have hneg : n < 0 := Int.compare_eq_lt.1 h
    have hnat : (n : ℚ) = -((-n).toNat : ℚ) := by
      have hint : ((-n).toNat : Int) = -n := by omega
      rw [← Int.cast_natCast, hint, Int.cast_neg, neg_neg]
    rw [hnat, neg_mul]
    exact nearest_round .negative (by omega) e
  · next h =>
    rw [Int.compare_eq_eq.1 h, Int.cast_zero, zero_mul]
    exact nearest_zero s
  · next h =>
    have hpos : 0 < n := Int.compare_eq_gt.1 h
    have hnat : (n : ℚ) = (n.toNat : ℚ) := by
      have hint : (n.toNat : Int) = n := by omega
      rw [← Int.cast_natCast, hint]
    rw [hnat]
    exact nearest_round .positive (by omega) e

theorem cast_apply (s : Sign) (n : Nat) : ((s.apply n : Int) : ℚ) = signed s n := by
  cases s with
  | positive => exact Int.cast_natCast n
  | negative => exact (Int.cast_neg _).trans (congrArg _ (Int.cast_natCast n))

theorem signed_mul_right (s : Sign) (v w : ℚ) : signed s v * w = signed s (v * w) := by
  cases s with
  | positive => rfl
  | negative => exact neg_mul v w

/-- With a common exponent a double has the same value. -/
theorem apply_decreaseExponent (s : Sign) {m : Nat} {e e' : Int} (h : e' ≤ e) :
    ((s.apply (decreaseExponent m e e').1 : Int) : ℚ) * 2 ^ e' = signed s (m * 2 ^ e) := by
  have hexponent : e - (e - e').toNat = e' := by omega
  have hvalue := mul_two_pow_mul_zpow m (e - e').toNat e
  rw [hexponent] at hvalue
  unfold decreaseExponent
  dsimp only
  rw [cast_apply, signed_mul_right, Nat.shiftLeft_eq, hvalue]

/-- The sum of two doubles is the nearest to the sum of their values. -/
theorem nearest_add {f g : UnpackedFloat} (hf : Canonical f) (hg : Canonical g) :
    Nearest (add Format.binary64 f g) (value f + value g) := by
  cases f with
  | infinity s => exact hf.elim
  | notANumber => exact hf.elim
  | zero s =>
    have hzero : value (.zero s) + value g = value g := zero_add _
    rw [hzero]
    cases g with
    | infinity s' => exact hg.elim
    | notANumber => exact hg.elim
    | zero s' =>
      show Nearest (if s == s' then .zero s else .zero .positive) 0
      split
      · exact nearest_zero _
      · exact nearest_zero _
    | finite s' m' e' hm' => exact nearest_value hg
  | finite s m e hm =>
    cases g with
    | infinity s' => exact hg.elim
    | notANumber => exact hg.elim
    | zero s' =>
      have hzero : value (.finite s m e hm) + value (.zero s') = value (.finite s m e hm) :=
        add_zero _
      rw [hzero]
      exact nearest_value hf
    | finite s' m' e' hm' =>
      have hvalue := nearest_normalize (s.apply (decreaseExponent m e (min e e')).1 +
        s'.apply (decreaseExponent m' e' (min e e')).1) (min e e') .positive
      rw [Int.cast_add, add_mul, apply_decreaseExponent s (min_le_left e e'),
        apply_decreaseExponent s' (min_le_right e e')] at hvalue
      exact hvalue

theorem represents_quotient (num : Nat) {den : Nat} (hden : 0 < den) :
    Represents (ExtendedMantissa.ofMantissaAndAccuracy (num / den)
      (accuracyOfFraction (num % den) den)) (num / den) := by
  have hpos : (0 : ℚ) < den := Nat.cast_pos.2 hden
  have hsplit : (num : ℚ) / den = (num / den : Nat) + (num % den : Nat) / den := by
    have hnat : ((num / den * den + num % den : Nat) : ℚ) = num := by rw [Nat.div_add_mod']
    rw [eq_comm, ← hnat, Nat.cast_add, Nat.cast_mul, add_div, mul_div_cancel_right₀ _ hpos.ne']
  have hlt : ((num % den : Nat) : ℚ) / den < 1 := by
    rw [div_lt_iff₀ hpos, one_mul]
    exact_mod_cast Nat.mod_lt num hden
  rw [hsplit]
  unfold accuracyOfFraction
  split
  · next hzero =>
    rw [hzero, Nat.cast_zero, zero_div, add_zero]
    exact represents_exact _
  · next hne =>
    have hrest : 0 < ((num % den : Nat) : ℚ) / den :=
      div_pos (Nat.cast_pos.2 (Nat.pos_of_ne_zero hne)) hpos
    cases hhalf : compare (2 * (num % den)) den with
    | lt =>
      have hless : ((num % den : Nat) : ℚ) / den < 1 / 2 := by
        rw [div_lt_div_iff₀ hpos two_pos, one_mul, mul_comm]
        exact_mod_cast Nat.compare_eq_lt.1 hhalf
      exact ⟨lt_add_of_pos_right _ hrest, (add_lt_add_iff_left _).2 hless⟩
    | eq =>
      have hsame : ((num % den : Nat) : ℚ) / den = 1 / 2 := by
        rw [div_eq_div_iff hpos.ne' two_ne_zero, one_mul, mul_comm]
        exact_mod_cast Nat.compare_eq_eq.1 hhalf
      rw [hsame]
      rfl
    | gt =>
      have hmore : 1 / 2 < ((num % den : Nat) : ℚ) / den := by
        rw [div_lt_div_iff₀ two_pos hpos, one_mul, mul_comm]
        exact_mod_cast Nat.compare_eq_gt.1 hhalf
      exact ⟨(add_lt_add_iff_left _).2 hmore, (add_lt_add_iff_left _).2 hlt⟩

theorem signed_div (s s' : Sign) (v w : ℚ) :
    signed (s / s') (v / w) = signed s v / signed s' w := by
  cases s with
  | positive =>
    cases s' with
    | positive => rfl
    | negative => exact (div_neg v).symm
  | negative =>
    cases s' with
    | positive => exact (neg_div w v).symm
    | negative => exact (neg_div_neg_eq v w).symm

/-- The quotient of two significands is made with enough bits. -/
theorem exists_divCore {m m' : Nat} (hm : 0 < m) (hm' : 0 < m') (e e' : Int) :
    ∃ n : Nat, (2 ^ 52 ≤ m * 2 ^ n / m' ∨ e - e' - n ≤ -1074) ∧
      divCore Format.binary64 m e m' e' =
        (m * 2 ^ n / m', e - e' - n, accuracyOfFraction (m * 2 ^ n % m') m') := by
  have hbits : (Format.binary64.mantissaBits : Int) = 53 := rfl
  have hmin : Format.binary64.minExponent = -1074 := by decide
  unfold divCore Format.targetExponent totalExponent
  rw [hbits, hmin]
  generalize ht : min (e - e') (max (m.log2 + 1 + e - (m'.log2 + 1 + e') - 53) (-1074)) = t
  have hexponent : e - e' - (e - e' - t).toNat = t := by omega
  refine ⟨(e - e' - t).toNat, ?_, ?_⟩
  · -- Unless the grid is the finest there is, the shift makes room for 53 bits.
    rw [hexponent, or_iff_not_imp_right]
    intro hlarge
    have hbits : 52 + (m'.log2 + 1) ≤ m.log2 + (e - e' - t).toNat := by omega
    rw [Nat.le_div_iff_mul_le hm']
    calc 2 ^ 52 * m' ≤ 2 ^ 52 * 2 ^ (m'.log2 + 1) := Nat.mul_le_mul_left _ Nat.lt_log2_self.le
      _ = 2 ^ (52 + (m'.log2 + 1)) := (pow_add ..).symm
      _ ≤ 2 ^ (m.log2 + (e - e' - t).toNat) := Nat.pow_le_pow_right two_pos hbits
      _ = 2 ^ m.log2 * 2 ^ (e - e' - t).toNat := pow_add ..
      _ ≤ m * 2 ^ (e - e' - t).toNat := Nat.mul_le_mul_right _ (Nat.log2_self_le hm.ne')
  · dsimp only
    rw [hexponent, Nat.shiftLeft_eq]

/-- The quotient of two doubles is the nearest to the quotient of their values. -/
theorem nearest_div {f : UnpackedFloat} (hf : Canonical f) {s' : Sign} {m' : Nat} {e' : Int}
    {hm' : 0 < m'} :
    Nearest (div Format.binary64 f (.finite s' m' e' hm'))
      (value f / value (.finite s' m' e' hm')) := by
  cases f with
  | infinity s => exact hf.elim
  | notANumber => exact hf.elim
  | zero s =>
    have hzero : value (.zero s) / value (.finite s' m' e' hm') = 0 := zero_div _
    rw [hzero]
    exact nearest_zero _
  | finite s m e hm =>
    obtain ⟨n, hgrid, hcore⟩ := exists_divCore hm hm' e e'
    have hvalue : signed s (m * 2 ^ e) / signed s' (m' * 2 ^ e') =
        signed (s / s') ((m * 2 ^ n : Nat) / m' * 2 ^ (e - e' - n)) := by
      rw [← signed_div, div_mul_eq_mul_div, mul_two_pow_mul_zpow, zpow_sub₀ two_ne_zero,
        mul_div_mul_comm, mul_div_right_comm]
    show Nearest (let (m, e, a) := divCore _ _ _ _ _; roundWithAccuracy _ _ m e a)
      (signed s _ / signed s' _)
    rw [hcore, hvalue]
    exact nearest_roundWithAccuracy _ (represents_quotient _ hm') (le_gridExponent hgrid)

/-! ## Operations on doubles -/

section Operations

variable {x y : Float}

theorem rounds_of_pack {f : UnpackedFloat} {v : ℚ} (hf : Nearest f v)
    (hx : x.toBits = .ofBitVec (pack Format.binary64 f)) (h : Number.isFinite x = true) :
    Rounds (exact x) v := by
  rw [exact_of_pack hf.canonical hx h]
  exact hf.rounds

/-- **A finite product is the nearest to the product.** -/
theorem rounds_mul (hx : Number.isFinite x = true) (hy : Number.isFinite y = true)
    (h : Number.isFinite (x * y) = true) : Rounds (exact (x * y)) (exact x * exact y) := by
  rw [exact_eq_value hx, exact_eq_value hy]
  exact rounds_of_pack (nearest_mul (canonical_parts hx) (canonical_parts hy)) rfl h

/-- **A finite sum is the nearest to the sum.** -/
theorem rounds_add (hx : Number.isFinite x = true) (hy : Number.isFinite y = true)
    (h : Number.isFinite (x + y) = true) : Rounds (exact (x + y)) (exact x + exact y) := by
  rw [exact_eq_value hx, exact_eq_value hy]
  exact rounds_of_pack (nearest_add (canonical_parts hx) (canonical_parts hy)) rfl h

/-- **A finite quotient is the nearest to the quotient.** -/
theorem rounds_div (hx : Number.isFinite x = true) (hy : Number.isFinite y = true)
    (hrank : rank y ≠ 0) (h : Number.isFinite (x / y) = true) :
    Rounds (exact (x / y)) (exact x / exact y) := by
  rw [exact_eq_value hx, exact_eq_value hy]
  rcases parts_cases hy with ⟨hzero, -⟩ | ⟨-, hm, hparts⟩
  · exact absurd hzero hrank
  · rw [hparts]
    refine rounds_of_pack (nearest_div (canonical_parts hx)) ?_ h
    rw [← hparts]
    rfl

end Operations

/-! ## What rounding is good for -/

namespace Rounds

variable {q v : ℚ}

/-- The error of rounding, in proportion to the number. -/
theorem abs_sub_le (h : Rounds q v) : |q - v| ≤ |v| / 2 ^ 53 + 2 ^ (-1075 : Int) := by
  obtain ⟨t, ht, -, herror⟩ := h
  have hmin : (2 : ℚ) ^ (-1074 : Int) = 2 ^ (-1075 : Int) * 2 := by
    rw [← zpow_add_one₀ two_ne_zero]
    rfl
  have hnonneg := abs_nonneg v
  have hpos : (0 : ℚ) < 2 ^ (-1075 : Int) := zpow_pos two_pos _
  rw [hmin] at ht
  rcases le_max_iff.1 ht with ht | ht
  · have hhalf : |v| / 2 ^ 52 / 2 = |v| / 2 ^ 53 := by ring
    linarith [div_le_div_of_nonneg_right ht two_pos.le]
  · have hv : 0 ≤ |v| / 2 ^ 53 := div_nonneg hnonneg (by norm_num)
    linarith

/-- **What has no more than 53 bits is not changed.** -/
theorem eq_of_bits (h : Rounds q v) {i u : Int} (hv : v = i * 2 ^ u) (hu : -1074 ≤ u)
    (hlt : |v| < 2 ^ (u + 53)) : q = v := by
  obtain ⟨t, ht, ⟨j, rfl⟩, herror⟩ := h
  -- The grid of the number is at least as fine as its last bit.
  have htu : t ≤ u := by
    rcases le_max_iff.1 ht with ht | ht
    · have hgrid : (2 : ℚ) ^ t < 2 ^ (u + 1) := by
        refine ht.trans_lt ?_
        rw [div_lt_iff₀ (by norm_num), ← zpow_natCast, ← zpow_add₀ two_ne_zero]
        exact hlt.trans_eq (congrArg _ (add_assoc u 1 52).symm)
      exact Int.lt_add_one_iff.1 ((zpow_lt_zpow_iff_right₀ one_lt_two).1 hgrid)
    · exact ((zpow_le_zpow_iff_right₀ one_lt_two).1 ht).trans hu
  have hpow : (0 : ℚ) < 2 ^ t := zpow_pos two_pos t
  have hmultiple : v = (i * 2 ^ (u - t).toNat : Int) * 2 ^ t := by
    rw [hv, Int.cast_mul, Int.cast_pow, Int.cast_ofNat, mul_assoc, ← zpow_natCast,
      ← zpow_add₀ two_ne_zero, Int.toNat_of_nonneg (by omega), sub_add_cancel]
  rw [hmultiple, ← sub_mul, abs_mul, abs_of_pos hpow, ← Int.cast_sub, ← Int.cast_abs] at herror
  have hhalf : ((|j - i * 2 ^ (u - t).toNat| : Int) : ℚ) < 1 := by
    rw [← mul_lt_mul_iff_left₀ hpow]
    linarith
  have hzero : |j - i * 2 ^ (u - t).toNat| < 1 := by exact_mod_cast hhalf
  rw [hmultiple, sub_eq_zero.1 (Int.abs_lt_one_iff.1 hzero)]

end Rounds

end Stepwise.Binary
