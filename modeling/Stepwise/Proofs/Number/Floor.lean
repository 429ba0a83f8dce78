import Mathlib.Data.Rat.Floor
import Stepwise.Proofs.Number.Rounding

/-!
# Floors

The floor of a double is found in its bits: they are kept down to the one that is worth
one, and a number below zero that loses something by it steps on to the next.

> `exact_floor`: the floor of a double stands for the floor of what the double stands for.

The ranks fall into three parts. Below the rank of one nothing is kept; from the rank of
two to the 52nd power on nothing is dropped; in between a bit worth one is in the
significand, and the step may carry into the next binade (`units_carried`).
-/

namespace Stepwise.Binary

theorem exact_ofRank {negative : Bool} {r : Nat} (h : r < infinityRank) :
    exact (ofRank negative r) = (if negative then -1 else 1) * (units r / unitsPerOne) := by
  unfold exact
  rw [rank_ofRank h, isNegative_ofRank h]

/-- A significand that is carried has the value of one that is not. -/
theorem units_carried {m k : Nat} (hlow : binade ≤ m) (hhigh : m ≤ 2 * binade) :
    units (m + k * binade) = m * 2 ^ k := by
  unfold units significand scale
  rcases hhigh.lt_or_eq with hlt | rfl
  · have hdiv : (m + k * binade) / binade = k + 1 := by
      rw [Nat.add_mul_div_right _ _ binade_pos, Nat.div_eq_of_lt_le (k := 1) (by omega) (by omega)]
      omega
    have hmod : (m + k * binade) % binade = m - binade := by
      rw [Nat.add_mul_mod_self_right, Nat.mod_eq_sub_mod hlow, Nat.mod_eq_of_lt (by omega)]
    rw [if_neg (by omega), hdiv, hmod, Nat.add_sub_cancel' hlow]
    rfl
  · -- Carried, it is the first significand of the next binade, with one bit less.
    have hsum : 2 * binade + k * binade = (k + 2) * binade := by
      rw [← Nat.add_mul, Nat.add_comm]
    have hpow : 2 ^ (k + 1) = 2 ^ k * 2 := pow_succ 2 k
    rw [hsum, if_neg, Nat.mul_div_cancel _ binade_pos, Nat.mul_mod_left]
    · show binade * 2 ^ (k + 1) = _
      rw [hpow]
      ring
    · rw [Nat.not_lt]
      exact Nat.le_mul_of_pos_left _ (by omega)

/-- Where the last bit is worth less than one, a double is a quotient of its significand. -/
theorem units_div_carried {m k : Nat} (hlow : binade ≤ m) (hhigh : m ≤ 2 * binade) {n : Nat}
    (hn : k + n = 1074) :
    (units (m + k * binade) : ℚ) / unitsPerOne = m / (2 ^ n : Nat) := by
  unfold unitsPerOne
  rw [units_carried hlow hhigh, ← hn, Nat.cast_mul, Nat.cast_pow, Nat.cast_ofNat, cast_pow_two,
    Nat.cast_pow, Nat.cast_ofNat, pow_add, mul_comm,
    mul_div_mul_left _ _ (pow_ne_zero k two_ne_zero)]

section Floor

variable {x : Float}

theorem exists_exact_of_large (hlarge : 1075 * binade ≤ rank x) : ∃ n : Int, exact x = n := by
  have hscale : 1074 ≤ scale (rank x) :=
    Nat.le_sub_of_add_le ((Nat.le_div_iff_mul_le binade_pos).2 hlarge)
  obtain ⟨k, hk⟩ := Nat.exists_eq_add_of_le hscale
  refine ⟨(if isNegative x then -1 else 1) * (significand (rank x) * 2 ^ k), ?_⟩
  have hexponent : (scale (rank x) : Int) - 1074 = k := by omega
  unfold exact
  rw [units_div, hexponent, zpow_natCast]
  push_cast
  rfl

/-- Below the rank of one a number is less than one. -/
theorem units_div_lt_one {r : Nat} (hsmall : r < 1023 * binade) :
    (units r : ℚ) / unitsPerOne < 1 := by
  have hscale : scale r ≤ 1021 := by
    have hdiv : r / binade < 1023 := (Nat.div_lt_iff_lt_mul binade_pos).2 hsmall
    unfold scale
    omega
  have hbits : (significand r : ℚ) < 2 ^ (53 : Int) := by
    exact_mod_cast significand_lt r
  rw [units_div]
  calc (significand r : ℚ) * 2 ^ ((scale r : Int) - 1074)
      < 2 ^ (53 : Int) * 2 ^ ((scale r : Int) - 1074) :=
        mul_lt_mul_of_pos_right hbits (zpow_pos two_pos _)
    _ = 2 ^ (53 + ((scale r : Int) - 1074)) := (zpow_add₀ two_ne_zero _ _).symm
    _ ≤ 2 ^ (0 : Int) := (zpow_le_zpow_iff_right₀ one_lt_two).2 (by omega)
    _ = 1 := zpow_zero 2

/-- The whole number that a quotient with a sign is rounded down to: its whole part, or one
more if it is below zero and has another part. -/
theorem floor_signed (negative : Bool) (m : Nat) {w : Nat} (hw : 0 < w) :
    ⌊((if negative then -1 else 1) * (m / w : ℚ))⌋ =
      (if negative then -1 else 1) *
        ((if negative ∧ m / w * w ≠ m then m / w + 1 else m / w : Nat) : Int) := by
  have hpos : (0 : ℚ) < w := Nat.cast_pos.2 hw
  have hlow : ((m / w : Nat) : ℚ) ≤ m / w := by
    rw [le_div_iff₀ hpos]
    exact_mod_cast Nat.div_mul_le_self m w
  have hhigh : (m : ℚ) / w < (m / w : Nat) + 1 := by
    rw [div_lt_iff₀ hpos]
    exact_mod_cast Nat.lt_mul_of_div_lt (Nat.lt_succ_self _) hw
  rw [Int.floor_eq_iff]
  cases negative with
  | false =>
    rw [if_neg Bool.false_ne_true, if_neg Bool.false_ne_true, if_neg (fun h => nomatch h.1),
      one_mul, one_mul]
    exact ⟨hlow, hhigh⟩
  | true =>
    rw [if_pos rfl, if_pos rfl, Int.cast_mul, Int.cast_neg, Int.cast_one, Int.cast_natCast]
    by_cases hwhole : m / w * w = m
    · have heq : (m : ℚ) / w = (m / w : Nat) := by
        rw [div_eq_iff hpos.ne']
        exact_mod_cast hwhole.symm
      rw [if_neg (fun h => h.2 hwhole), heq]
      exact ⟨le_rfl, lt_add_one _⟩
    · have hne : (m : ℚ) / w ≠ (m / w : Nat) := by
        rw [Ne, div_eq_iff hpos.ne']
        exact_mod_cast fun h : m = m / w * w => hwhole h.symm
      have hlt := lt_of_le_of_ne hlow hne.symm
      rw [if_pos ⟨rfl, hwhole⟩, Nat.cast_succ]
      constructor <;> linarith

/-- A part of a binade divides the binade, so to drop bits of a rank is to drop them of its
significand. -/
theorem div_mul_add {m k w : Nat} (hw : 0 < w) (hdvd : w ∣ binade) :
    (m + k * binade) / w * w = m / w * w + k * binade := by
  obtain ⟨c, hc⟩ := hdvd
  have hmul : k * binade = k * c * w := by rw [hc, Nat.mul_assoc, Nat.mul_comm w]
  rw [hmul, Nat.add_mul_div_right _ _ hw, Nat.add_mul]

/-- The rank with the bits below one dropped, a step further down where they are missed. -/
theorem carried_rank {negative : Bool} {m k w : Nat} (hw : 0 < w) (hdvd : w ∣ binade) :
    (if negative ∧ (m + k * binade) / w * w ≠ m + k * binade then (m + k * binade) / w * w + w
      else (m + k * binade) / w * w) =
      (if negative ∧ m / w * w ≠ m then m / w + 1 else m / w) * w + k * binade := by
  simp only [div_mul_add hw hdvd, ne_eq, Nat.add_right_cancel_iff]
  split
  · rw [Nat.succ_mul, Nat.add_right_comm]
  · rfl

/-- What is dropped leaves a significand that is carried at most. -/
theorem carried_bounds {m w : Nat} (p : Prop) [Decidable p] (hw : 0 < w) (hdvd : w ∣ binade)
    (hlow : binade ≤ m) (hhigh : m < 2 * binade) :
    binade ≤ (if p then m / w + 1 else m / w) * w ∧
      (if p then m / w + 1 else m / w) * w ≤ 2 * binade := by
  obtain ⟨c, hc⟩ := hdvd
  rw [hc] at hlow hhigh ⊢
  have hle : c ≤ m / w := (Nat.le_div_iff_mul_le hw).2 (by rwa [Nat.mul_comm])
  have hlt : m / w < 2 * c := (Nat.div_lt_iff_lt_mul hw).2 (by rwa [Nat.mul_assoc, Nat.mul_comm c])
  have hcover : c ≤ (if p then m / w + 1 else m / w) ∧
      (if p then m / w + 1 else m / w) ≤ 2 * c := by
    split
    · omega
    · omega
  rw [Nat.mul_comm w c, ← Nat.mul_assoc]
  exact ⟨Nat.mul_le_mul_right w hcover.1, Nat.mul_le_mul_right w hcover.2⟩

/-- Between the ranks of one and of two to the 52nd power the bits below one are dropped. -/
theorem exact_floor_of_mid (hlow : 1023 * binade ≤ rank x) (hhigh : rank x < 1075 * binade) :
    exact (floor x) = ⌊exact x⌋ := by
  have hbinade : binade = 4503599627370496 := rfl
  have hdiv : 1023 ≤ rank x / binade ∧ rank x / binade < 1075 :=
    ⟨(Nat.le_div_iff_mul_le binade_pos).2 hlow, (Nat.div_lt_iff_lt_mul binade_pos).2 hhigh⟩
  have hrank := significand_add_scale (rank x)
  have hsignificand : binade ≤ significand (rank x) ∧ significand (rank x) < 2 * binade := by
    have hmod := Nat.mod_lt (rank x) binade_pos
    unfold significand
    rw [if_neg (by omega)]
    omega
  have hscale : scale (rank x) + (1075 - rank x / binade) = 1074 := by
    unfold scale
    omega
  have hexact : exact x = (if isNegative x then -1 else 1) *
      (significand (rank x) / (2 ^ (1075 - rank x / binade) : Nat)) := by
    unfold exact
    rw [← units_div_carried hsignificand.1 hsignificand.2.le hscale, hrank]
  have hw : 0 < 2 ^ (1075 - rank x / binade) := Nat.two_pow_pos _
  have hdvd : 2 ^ (1075 - rank x / binade) ∣ binade := Nat.pow_dvd_pow 2 (by omega)
  rw [hexact, floor_signed _ _ hw]
  unfold floor
  dsimp only
  rw [if_neg (by omega), if_neg (by omega), Nat.pow_eq]
  generalize 1075 - rank x / binade = n at *
  generalize scale (rank x) = k at *
  generalize significand (rank x) = m at *
  -- The step down may carry the significand to the next binade, but no further.
  obtain ⟨hcarried, hcarried'⟩ := carried_bounds (isNegative x = true ∧ m / 2 ^ n * 2 ^ n ≠ m)
    hw hdvd hsignificand.1 hsignificand.2
  rw [← hrank, carried_rank hw hdvd, exact_ofRank, units_div_carried hcarried hcarried' hscale]
  · rw [Nat.cast_mul, mul_div_cancel_right₀ _ (Nat.cast_ne_zero.2 hw.ne')]
    push_cast
    rfl
  · have hinfinity : infinityRank = 2047 * binade := rfl
    rw [hinfinity, hbinade] at *
    omega

theorem exact_neg_one : exact (-1.0) = -1 := by
  have hmagnitude : magnitude (-1.0) = 1.0 := by decide +kernel
  rw [exact_of_isNegative (by decide +kernel) (by decide +kernel), hmagnitude, exact_one]

/-- Below one nothing is left but zero, or minus one if the number is below zero. -/
theorem exact_floor_of_small (hsmall : rank x < 1023 * binade) : exact (floor x) = ⌊exact x⌋ := by
  have hlt := units_div_lt_one hsmall
  have hexact : exact x = (if isNegative x then -1 else 1) * (units (rank x) / unitsPerOne) := rfl
  unfold floor
  dsimp only
  by_cases hzero : rank x = 0
  · have hunits : units 0 = 0 := by decide
    rw [hzero, hunits, Nat.cast_zero, zero_div, mul_zero] at hexact
    rw [if_pos (.inl hzero), hexact, Int.floor_zero, Int.cast_zero]
  · have hpos : (0 : ℚ) < units (rank x) / unitsPerOne :=
      div_pos (Nat.cast_pos.2 (units_pos (Nat.pos_of_ne_zero hzero)))
        (Nat.cast_pos.2 (by decide +kernel))
    have hhigh : rank x < 1075 * binade := hsmall.trans (by decide)
    rw [if_neg (by omega), if_pos hsmall, hexact]
    generalize (units (rank x) : ℚ) / unitsPerOne = v at *
    cases isNegative x with
    | false =>
      have hfloor : ⌊1 * v⌋ = 0 := Int.floor_eq_iff.2 ⟨by simpa using hpos.le, by simpa using hlt⟩
      rw [if_neg Bool.false_ne_true, if_neg Bool.false_ne_true, exact_zero, hfloor, Int.cast_zero]
    | true =>
      have hfloor : ⌊-1 * v⌋ = -1 := by
        rw [Int.floor_eq_iff, Int.cast_neg, Int.cast_one]
        constructor <;> linarith
      rw [if_pos rfl, if_pos rfl, exact_neg_one, hfloor, Int.cast_neg, Int.cast_one]

/-- **The floor of a finite double is its floor.** -/
theorem exact_floor (x : Float) : exact (floor x) = ⌊exact x⌋ := by
  by_cases hlarge : 1075 * binade ≤ rank x
  · obtain ⟨n, hn⟩ := exists_exact_of_large hlarge
    have hself : floor x = x := by
      unfold floor
      exact if_pos (.inr hlarge)
    rw [hself, hn, Int.floor_intCast]
  by_cases hlow : 1023 * binade ≤ rank x
  · exact exact_floor_of_mid hlow (Nat.not_le.1 hlarge)
  · exact exact_floor_of_small (Nat.not_le.1 hlow)

end Floor

end Stepwise.Binary
