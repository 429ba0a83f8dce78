import Mathlib.Algebra.Order.Field.Rat
import Stepwise.Proofs.Number.Bits

/-!
# Signs and exact values

A finite double stands for a rational number: its units, with its sign. With the sign
set it is the opposite of its magnitude, and zero apart these are the doubles below
zero:

> `lt_zero_iff`: a finite double is less than zero exactly if its sign is set and it
> is not zero.

The opposite of a finite double differs from it in the sign alone (`neg_eq_ofRank`).
-/

namespace Stepwise.Binary

open Float.Model (Format)
open Float.Model.UnpackedFloat

/-- The rational number that a finite double stands for. -/
def exact (x : Float) : ℚ := (if isNegative x then -1 else 1) * (units (rank x) / unitsPerOne)

/-! ## Small whole numbers -/

theorem exact_of_units {x : Float} {n : Nat} (hsign : isNegative x = false)
    (hunits : units (rank x) = n * unitsPerOne) : exact x = n := by
  have hne : (unitsPerOne : ℚ) ≠ 0 := by
    rw [Nat.cast_ne_zero]
    decide +kernel
  unfold exact
  rw [hsign, hunits, Nat.cast_mul, mul_div_cancel_right₀ _ hne, if_neg Bool.false_ne_true, one_mul]

theorem exact_zero : exact 0.0 = 0 :=
  (exact_of_units (n := 0) (by decide +kernel) (by decide +kernel)).trans Nat.cast_zero

theorem exact_one : exact 1.0 = 1 :=
  (exact_of_units (n := 1) (by decide +kernel) (by decide +kernel)).trans Nat.cast_one

theorem exact_two : exact 2.0 = 2 :=
  (exact_of_units (n := 2) (by decide +kernel) (by decide +kernel)).trans Nat.cast_two

/-! ## Doubles made from a rank -/

section OfRank

variable {negative : Bool} {r : Nat}

theorem toBits_ofBits {b : UInt64} (h : b.toNat % signBit < infinityRank) :
    (Float.ofBits b).toBits = b := by
  have hvalid : Format.binary64.Valid b.toBitVec :=
    ⟨fun hones => absurd hones (unpackExponent_ne_ones h)⟩
  show UInt64.ofBitVec (pack Format.binary64 (unpack Format.binary64 b.toBitVec)) = b
  rw [pack_unpack hvalid]

theorem toNat_toBits_ofRank (h : r < infinityRank) :
    (ofRank negative r).toBits.toNat = if negative then signBit + r else r := by
  have hinfinity : infinityRank = 9218868437227405312 := rfl
  have hsign : signBit = 9223372036854775808 := rfl
  have hlt : (if negative then signBit + r else r) < 18446744073709551616 := by
    split <;> omega
  have hnat : (UInt64.ofNat (if negative then signBit + r else r)).toNat =
      if negative then signBit + r else r := by
    rw [UInt64.toNat_ofNat']
    exact Nat.mod_eq_of_lt hlt
  unfold ofRank
  rw [toBits_ofBits, hnat]
  rw [hnat]
  split
  · rw [Nat.add_mod_left, Nat.mod_eq_of_lt (by omega)]
    exact h
  · rw [Nat.mod_eq_of_lt (by omega)]
    exact h

theorem rank_ofRank (h : r < infinityRank) : rank (ofRank negative r) = r := by
  have hinfinity : infinityRank < signBit := by decide
  unfold rank
  rw [toNat_toBits_ofRank h]
  split
  · rw [Nat.add_mod_left, Nat.mod_eq_of_lt (Nat.lt_trans h hinfinity)]
  · exact Nat.mod_eq_of_lt (Nat.lt_trans h hinfinity)

theorem isNegative_ofRank (h : r < infinityRank) : isNegative (ofRank negative r) = negative := by
  have hinfinity : infinityRank < signBit := by decide
  unfold isNegative
  rw [toNat_toBits_ofRank h]
  cases negative with
  | true => exact decide_eq_true (Nat.le_add_right ..)
  | false => exact decide_eq_false (Nat.not_le.2 (Nat.lt_trans h hinfinity))

end OfRank

/-- A double without its sign. -/
def magnitude (x : Float) : Float := ofRank false (rank x)

theorem rank_magnitude {x : Float} (h : rank x < infinityRank) : rank (magnitude x) = rank x :=
  rank_ofRank h

theorem isNegative_magnitude {x : Float} (h : rank x < infinityRank) :
    isNegative (magnitude x) = false :=
  isNegative_ofRank h

/-- A double with its sign set stands for the opposite of its magnitude. -/
theorem exact_of_isNegative {x : Float} (h : rank x < infinityRank) (hneg : isNegative x = true) :
    exact x = -exact (magnitude x) := by
  unfold exact
  rw [rank_magnitude h, isNegative_magnitude h, hneg, if_pos rfl, if_neg Bool.false_ne_true,
    one_mul, neg_one_mul]

/-! ## Comparisons with zero -/

theorem finite_lt_zero_iff {s : Sign} {m : Nat} {e : Int} {hm : 0 < m} :
    ((Float.Model.UnpackedFloat.finite s m e hm).compare (.zero .positive) == some .lt) = true ↔
      s = .negative := by
  cases s with
  | negative => exact iff_of_true rfl rfl
  | positive => exact iff_of_false Bool.false_ne_true (fun h => nomatch h)

/-- **A finite double is below zero exactly if its sign is set and it is not zero.** -/
theorem lt_zero_iff {x : Float} (h : rank x < infinityRank) :
    x < 0.0 ↔ isNegative x = true ∧ rank x ≠ 0 := by
  have hzero : unpack Format.binary64 (0.0 : Float).toBits.toBitVec = .zero .positive := rfl
  have hsign : (if isNegative x then Sign.negative else .positive) = .negative ↔
      isNegative x = true := by
    split <;> simp [*]
  show decide (Float.Model.lt _ _ = true) = true ↔ _
  rw [decide_eq_true_iff]
  show ((unpack Format.binary64 x.toBits.toBitVec).compare
    (unpack Format.binary64 (0.0 : Float).toBits.toBitVec) == some .lt) = true ↔ _
  rw [hzero]
  rcases unpack_cases h with ⟨hrank, hx⟩ | ⟨hrank, hm, hx⟩
  · rw [hx]
    refine iff_of_false ?_ fun hlt => hlt.2 hrank
    split <;> exact Bool.false_ne_true
  · rw [hx, finite_lt_zero_iff, hsign]
    exact (and_iff_left hrank).symm

/-- **A finite double is above zero exactly if its sign is not set and it is not zero.** -/
theorem pos_iff {x : Float} (h : rank x < infinityRank) :
    0.0 < x ↔ isNegative x = false ∧ rank x ≠ 0 := by
  have hzero : unpack Format.binary64 (0.0 : Float).toBits.toBitVec = .zero .positive := rfl
  show decide (Float.Model.lt _ _ = true) = true ↔ _
  rw [decide_eq_true_iff]
  show ((unpack Format.binary64 (0.0 : Float).toBits.toBitVec).compare
    (unpack Format.binary64 x.toBits.toBitVec) == some .lt) = true ↔ _
  rw [hzero]
  rcases unpack_cases h with ⟨hrank, hx⟩ | ⟨hrank, hm, hx⟩
  · rw [hx]
    refine iff_of_false ?_ fun hlt => hlt.2 hrank
    split <;> exact Bool.false_ne_true
  · rw [hx]
    cases isNegative x with
    | true => exact iff_of_false Bool.false_ne_true fun hpos => Bool.noConfusion hpos.1
    | false => exact iff_of_true rfl ⟨rfl, hrank⟩

/-! ## Opposites -/

/-- Two finite doubles of one rank and different signs unpack to opposites. -/
theorem unpack_eq_neg {x y : Float} (h : rank x < infinityRank) (hrank : rank y = rank x)
    (hsign : isNegative y = !isNegative x) :
    unpack Format.binary64 y.toBits.toBitVec = (unpack Format.binary64 x.toBits.toBitVec).neg := by
  have hflip : (if isNegative y then Sign.negative else .positive) =
      -(if isNegative x then Sign.negative else .positive) := by
    rw [hsign]
    cases isNegative x <;> rfl
  have hy := unpack_cases (hrank.trans_lt h)
  rw [hrank, hflip] at hy
  rcases unpack_cases h with ⟨hzero, hx⟩ | ⟨hne, hm, hx⟩
  · rcases hy with ⟨-, hy⟩ | ⟨hne, -⟩
    · rw [hx, hy]
      rfl
    · exact absurd hzero hne
  · rcases hy with ⟨hzero, -⟩ | ⟨-, hm', hy⟩
    · exact absurd hzero hne
    · rw [hx, hy]
      rfl

/-- **The opposite of a finite double has the other sign and the same rank.** -/
theorem neg_eq_ofRank {x : Float} (h : rank x < infinityRank) :
    -x = ofRank (!isNegative x) (rank x) := by
  refine ext_bits ?_
  show UInt64.ofBitVec (pack Format.binary64 (unpack Format.binary64 x.toBits.toBitVec).neg) = _
  rw [← unpack_eq_neg h (rank_ofRank h) (isNegative_ofRank h)]
  show UInt64.ofBitVec (pack Format.binary64 (unpack Format.binary64
    (ofRank (!isNegative x) (rank x)).toModel.toBits.toBitVec)) = _
  rw [pack_unpack (ofRank (!isNegative x) (rank x)).toModel.valid]

theorem rank_neg {x : Float} (h : rank x < infinityRank) : rank (-x) = rank x := by
  rw [neg_eq_ofRank h, rank_ofRank h]

/-- The opposite of what is above zero is not. -/
theorem not_pos_neg {x : Float} (h : rank x < infinityRank) (hpos : 0.0 < x) : ¬ 0.0 < -x := by
  rw [pos_iff (by rwa [rank_neg h]), neg_eq_ofRank h, isNegative_ofRank h,
    ((pos_iff h).1 hpos).1]
  exact fun hneg => Bool.noConfusion hneg.1

end Stepwise.Binary
