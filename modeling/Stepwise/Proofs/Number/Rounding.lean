import Mathlib.Algebra.Order.Field.Power
import Mathlib.Tactic.Linarith
import Mathlib.Tactic.Ring
import Stepwise.Proofs.Number.Exact
import Stepwise.Proofs.Number.Nearest
import Stepwise.Proofs.Number.NonFinite

/-!
# How a result is rounded

An operation makes of the parts of doubles a significand, an exponent and what is left
over, and rounds them to the parts of a double:

> `nearest_roundWithAccuracy`: the parts are those of a double on the grid of the exact
> number, no more than half a step of the grid away from it.

Dropped bits are kept track of by two residual bits, which tell on which side of the
half the number is (`Represents`). A significand that is carried in the process uses
one bit more and is shifted, which does not change its value (`exists_carried`). What
has been made is packed; if it comes out finite it stands for what was packed
(`exact_of_pack`).
-/

namespace Stepwise.Binary

open Float.Model (Format UnpackedFloat totalExponent)
open Float.Model.UnpackedFloat

/-! ## Values -/

/-- A number with a sign. -/
def signed : Sign → ℚ → ℚ
  | .positive, v => v
  | .negative, v => -v

theorem signed_zero (s : Sign) : signed s 0 = 0 := by
  cases s with
  | positive => rfl
  | negative => exact neg_zero

theorem abs_signed (s : Sign) (v : ℚ) : |signed s v| = |v| := by
  cases s with
  | positive => rfl
  | negative => exact abs_neg v

theorem signed_sub (s : Sign) (v w : ℚ) : signed s v - signed s w = signed s (v - w) := by
  cases s with
  | positive => rfl
  | negative => exact (neg_sub_neg v w).trans (neg_sub v w).symm

/-- The number that a double taken apart stands for. -/
def value : UnpackedFloat → ℚ
  | .finite s m e _ => signed s (m * 2 ^ e)
  | .zero _ | .infinity _ | .notANumber => 0

/-- Whether a significand and an exponent are those of a double, if it is not too large. -/
structure IsCanonical (m : Nat) (e : Int) : Prop where
  lt : m < 2 ^ 53
  le : -1074 ≤ e
  normal : 2 ^ 52 ≤ m ∨ e = -1074

/-- Whether a double taken apart is finite and canonical. -/
def Canonical : UnpackedFloat → Prop
  | .finite _ m e _ => IsCanonical m e
  | .zero _ => True
  | .infinity _ | .notANumber => False

theorem cast_pow_two (n : Nat) : ((Nat.pow 2 n : Nat) : ℚ) = 2 ^ n := Nat.cast_pow 2 n

theorem units_div (r : Nat) :
    (units r : ℚ) / unitsPerOne = significand r * 2 ^ ((scale r : Int) - 1074) := by
  unfold units unitsPerOne
  -- The power is kept from being computed.
  generalize hn : 1074 = n
  have hn : (1074 : Int) = n := by exact_mod_cast hn
  rw [hn, Nat.cast_mul, cast_pow_two, cast_pow_two, mul_div_assoc, zpow_sub₀ two_ne_zero,
    zpow_natCast, zpow_natCast]

/-- The significand and the scale of a rank are canonical. -/
theorem isCanonical_of_rank (r : Nat) : IsCanonical (significand r) ((scale r : Int) - 1074) where
  lt := significand_lt r
  le := by omega
  normal := by
    unfold significand scale
    rw [binade_eq]
    split
    · next h =>
      right
      rw [Nat.div_eq_of_lt h]
      rfl
    · left
      omega

section Parts

variable {x : Float}

theorem parts_cases (h : Number.isFinite x = true) :
    (rank x = 0 ∧ parts x = .zero (if isNegative x then .negative else .positive)) ∨
    (rank x ≠ 0 ∧ ∃ hm, parts x = .finite (if isNegative x then .negative else .positive)
      (significand (rank x)) (scale (rank x) - 1074) hm) :=
  unpack_cases (of_decide_eq_true h)

theorem canonical_parts (h : Number.isFinite x = true) : Canonical (parts x) := by
  rcases parts_cases h with ⟨-, hx⟩ | ⟨-, hm, hx⟩
  · rw [hx]
    trivial
  · rw [hx]
    exact isCanonical_of_rank (rank x)

/-- **A finite double stands for what its parts stand for.** -/
theorem exact_eq_value (h : Number.isFinite x = true) : exact x = value (parts x) := by
  unfold exact
  rcases parts_cases h with ⟨hrank, hx⟩ | ⟨-, hm, hx⟩
  · have hzero : units 0 = 0 := by decide
    rw [hx, hrank, hzero, Nat.cast_zero, zero_div, mul_zero]
    rfl
  · rw [hx, units_div]
    cases isNegative x with
    | true => exact neg_one_mul _
    | false => exact one_mul _

end Parts

/-! ## Packing -/

theorem rank_of_isCanonical {m : Nat} {e : Int} (h : IsCanonical m e) :
    significand (m + (e + 1074).toNat * binade) = m ∧
      (scale (m + (e + 1074).toNat * binade) : Int) - 1074 = e := by
  obtain ⟨hlt, hle, hnormal⟩ := h
  unfold significand scale
  rw [binade_eq]
  rcases hnormal with hnormal | rfl
  · have hdiv : (m + (e + 1074).toNat * 4503599627370496) / 4503599627370496 =
        (e + 1074).toNat + 1 := by omega
    rw [hdiv, if_neg (by omega)]
    omega
  · have hzero : (-1074 + 1074 : Int).toNat = 0 := rfl
    rw [hzero, Nat.zero_mul, Nat.add_zero]
    split
    · omega
    · omega

/-- What is canonical and not too large survives packing: the double of that rank has these
parts, and a double is packed from its parts. -/
theorem unpack_pack_finite {s : Sign} {m : Nat} {e : Int} {hm : 0 < m} (h : IsCanonical m e)
    (he : e ≤ 971) : unpack Format.binary64 (pack Format.binary64 (.finite s m e hm)) =
      .finite s m e hm := by
  obtain ⟨hsignificand, hscale⟩ := rank_of_isCanonical h
  have hlt : m + (e + 1074).toNat * binade < infinityRank := by
    have hinfinity : infinityRank = 2047 * binade := rfl
    have hlt := h.lt
    rw [hinfinity, binade_eq]
    omega
  obtain ⟨x, hrank, hnegative⟩ : ∃ x, rank x = m + (e + 1074).toNat * binade ∧
      isNegative x = (s == .negative) :=
    ⟨ofRank (s == .negative) _, rank_ofRank hlt, isNegative_ofRank hlt⟩
  have hsign : (if isNegative x then Sign.negative else .positive) = s := by
    rw [hnegative]
    cases s <;> rfl
  have hparts : parts x = .finite s m e hm := by
    rcases parts_cases (decide_eq_true (hrank.trans_lt hlt)) with ⟨hzero, -⟩ | ⟨-, hpos, hx⟩
    · omega
    · rw [← hrank] at hsignificand hscale
      exact hx.trans (exists_finite hsign hsignificand hscale).choose_spec
  rw [← hparts]
  exact congrArg (unpack Format.binary64) (pack_unpack x.toModel.valid)

/-- What is canonical and too large is packed as an infinity. -/
theorem pack_of_large {s : Sign} {m : Nat} {e : Int} {hm : 0 < m} (he : 971 < e) :
    pack Format.binary64 (.finite s m e hm) = pack Format.binary64 (.infinity s) := by
  have hbias : Format.binary64.exponentBias = 1023 := by decide
  unfold pack
  dsimp only
  rw [hbias, if_pos (by omega)]

/-- **A finite double stands for what it was packed from.** -/
theorem exact_of_pack {x : Float} {f : UnpackedFloat} (hf : Canonical f)
    (hx : x.toBits = .ofBitVec (pack Format.binary64 f)) (hfinite : Number.isFinite x = true) :
    exact x = value f := by
  have hparts : parts x = unpack Format.binary64 (pack Format.binary64 f) := by
    unfold parts
    rw [hx]
  rw [exact_eq_value hfinite, hparts]
  cases f with
  | zero s => cases s <;> rfl
  | infinity s => exact hf.elim
  | notANumber => exact hf.elim
  | finite s m e hm =>
    by_cases he : e ≤ 971
    · rw [unpack_pack_finite hf he]
    · have hlarge := hx.trans (congrArg _ (pack_of_large (not_le.1 he)))
      have hinfinite : Number.isFinite x = false := isFinite_of_pack (f := .infinity s) rfl hlarge
      exact Bool.noConfusion (hfinite.symm.trans hinfinite)

/-! ## Residual bits -/

/-- The number that a mantissa with its residual bits tells of: the round bit is worth a
half, and the sticky bit says that something less than a half is left. -/
def Represents (em : ExtendedMantissa) (v : ℚ) : Prop :=
  match em.roundBit, em.stickyBit with
  | false, false => v = em.mantissa
  | false, true => em.mantissa < v ∧ v < em.mantissa + 1 / 2
  | true, false => v = em.mantissa + 1 / 2
  | true, true => em.mantissa + 1 / 2 < v ∧ v < em.mantissa + 1

namespace Represents

variable {em : ExtendedMantissa} {v : ℚ}

/-- Both bits together say whether anything is left. -/
theorem residue_cases (h : Represents em v) :
    ((em.roundBit || em.stickyBit) = false ∧ v = em.mantissa) ∨
      ((em.roundBit || em.stickyBit) = true ∧ em.mantissa < v ∧ v < em.mantissa + 1) := by
  obtain ⟨m, round, sticky⟩ := em
  cases round with
  | false =>
    cases sticky with
    | false => exact .inl ⟨rfl, h⟩
    | true => exact .inr ⟨rfl, h.1, h.2.trans (by linarith)⟩
  | true =>
    cases sticky with
    | false =>
      have hv : v = (m : ℚ) + 1 / 2 := h
      exact .inr ⟨rfl, by linarith, by linarith⟩
    | true => exact .inr ⟨rfl, lt_trans (by linarith) h.1, h.2⟩

theorem bounds (h : Represents em v) : em.mantissa ≤ v ∧ v < em.mantissa + 1 := by
  rcases h.residue_cases with ⟨-, rfl⟩ | ⟨-, hlow, hhigh⟩
  · exact ⟨le_rfl, lt_add_one _⟩
  · exact ⟨hlow.le, hhigh⟩

/-- What a shift drops stays in the residual bits. -/
theorem shiftRightOne (h : Represents em v) : Represents em.shiftRightOne (v / 2) := by
  have hresidue := h.residue_cases
  obtain ⟨m, round, sticky⟩ := em
  unfold ExtendedMantissa.shiftRightOne
  dsimp only at hresidue ⊢
  obtain ⟨half, rfl | rfl⟩ := Nat.even_or_odd' m
  · have hhalf : 2 * half / 2 = half := by omega
    have hround : (2 * half % 2 != 0) = false := by simp
    rw [hhalf, hround]
    rw [Nat.cast_mul, Nat.cast_ofNat] at hresidue
    rcases hresidue with ⟨hnone, hv⟩ | ⟨hsome, hlow, hhigh⟩
    · rw [hnone]
      show v / 2 = half
      linarith
    · rw [hsome]
      show (half : ℚ) < v / 2 ∧ v / 2 < half + 1 / 2
      constructor <;> linarith
  · have hhalf : (2 * half + 1) / 2 = half := by omega
    have hround : ((2 * half + 1) % 2 != 0) = true := by simp
    rw [hhalf, hround]
    rw [Nat.cast_succ, Nat.cast_mul, Nat.cast_ofNat] at hresidue
    rcases hresidue with ⟨hnone, hv⟩ | ⟨hsome, hlow, hhigh⟩
    · rw [hnone]
      show v / 2 = half + 1 / 2
      linarith
    · rw [hsome]
      show (half : ℚ) + 1 / 2 < v / 2 ∧ v / 2 < half + 1
      constructor <;> linarith

theorem shiftRight (h : Represents em v) (n : Nat) : Represents (em >>> n) (v / 2 ^ n) := by
  induction n with
  | zero =>
    rw [pow_zero, div_one]
    exact h
  | succ n ih =>
    rw [pow_succ, ← div_div]
    exact ih.shiftRightOne

/-- **The mantissa is rounded to the nearest.** -/
theorem roundedMantissa (h : Represents em v) : |(em.roundedMantissa : ℚ) - v| ≤ 1 / 2 := by
  rw [abs_le]
  obtain ⟨m, round, sticky⟩ := em
  cases round with
  | false =>
    cases sticky with
    | false =>
      have hv : v = m := h
      show _ ≤ (m : ℚ) - v ∧ (m : ℚ) - v ≤ _
      constructor <;> linarith
    | true =>
      obtain ⟨hlow, hhigh⟩ : (m : ℚ) < v ∧ v < m + 1 / 2 := h
      show _ ≤ (m : ℚ) - v ∧ (m : ℚ) - v ≤ _
      constructor <;> linarith
  | true =>
    cases sticky with
    | false =>
      have hv : v = (m : ℚ) + 1 / 2 := h
      have hmod : ((m % 2 : Nat) : ℚ) ≤ 1 := by
        exact_mod_cast Nat.lt_succ_iff.1 (Nat.mod_lt m two_pos)
      show _ ≤ ((m + m % 2 : Nat) : ℚ) - v ∧ ((m + m % 2 : Nat) : ℚ) - v ≤ _
      rw [Nat.cast_add]
      have hnonneg : (0 : ℚ) ≤ (m % 2 : Nat) := Nat.cast_nonneg _
      constructor <;> linarith
    | true =>
      obtain ⟨hlow, hhigh⟩ : (m : ℚ) + 1 / 2 < v ∧ v < m + 1 := h
      show _ ≤ ((m + 1 : Nat) : ℚ) - v ∧ ((m + 1 : Nat) : ℚ) - v ≤ _
      rw [Nat.cast_succ]
      constructor <;> linarith

end Represents

/-- A mantissa that is rounded is the mantissa or the next. -/
theorem roundedMantissa_bounds (em : ExtendedMantissa) :
    em.mantissa ≤ em.roundedMantissa ∧ em.roundedMantissa ≤ em.mantissa + 1 := by
  obtain ⟨m, round, sticky⟩ := em
  have hmod := Nat.mod_lt m two_pos
  cases round with
  | false => cases sticky <;> exact ⟨le_rfl, Nat.le_succ m⟩
  | true =>
    cases sticky with
    | false =>
      show m ≤ m + m % 2 ∧ m + m % 2 ≤ m + 1
      omega
    | true => exact ⟨Nat.le_succ m, le_rfl⟩

/-! ## Rounding -/

/-- The exponent of the grid on which a number with these significant digits is rounded. -/
def gridExponent (m : Nat) (e : Int) : Int := max (m.log2 + e - 52) (-1074)

theorem targetExponent_eq (m : Nat) (e : Int) :
    Format.binary64.targetExponent (totalExponent m e) = gridExponent m e := by
  have hbits : (Format.binary64.mantissaBits : Int) = 53 := rfl
  have hmin : Format.binary64.minExponent = -1074 := by decide
  unfold Format.targetExponent totalExponent gridExponent
  rw [hbits, hmin]
  omega

theorem shiftToTargetExponent_eq {m : Nat} {e : Int} (a : Accuracy) (h : e ≤ gridExponent m e) :
    shiftToTargetExponent Format.binary64 m e a =
      (ExtendedMantissa.ofMantissaAndAccuracy m a >>> (gridExponent m e - e).toNat,
        gridExponent m e) := by
  unfold shiftToTargetExponent shiftToExponent
  rw [targetExponent_eq]
  dsimp only
  rw [Int.toNat_of_nonneg (by omega), add_sub_cancel]

/-- **A number is rounded** to a whole multiple of its grid, no more than half the grid
away. The grid is fine: 52 bits below the number, or the finest there is. -/
def Rounds (q v : ℚ) : Prop :=
  ∃ t : Int, (2 : ℚ) ^ t ≤ max (|v| / 2 ^ 52) (2 ^ (-1074 : Int)) ∧ (∃ j : Int, q = j * 2 ^ t) ∧
    |q - v| ≤ 2 ^ t / 2

/-- Whether what an operation made of parts is a double, and a number rounded. -/
structure Nearest (f : UnpackedFloat) (v : ℚ) : Prop where
  canonical : Canonical f
  rounds : Rounds (value f) v

theorem gridExponent_of_isCanonical {m : Nat} {e : Int} (h : IsCanonical m e) :
    gridExponent m e = e := by
  obtain ⟨hlt, hle, hnormal⟩ := h
  unfold gridExponent
  rcases hnormal with hnormal | rfl
  · have hlog : m.log2 = 52 := (Nat.log2_eq_iff (by omega)).2 ⟨hnormal, hlt⟩
    omega
  · have hlog : m.log2 < 53 := by
      rcases Nat.eq_zero_or_pos m with rfl | hpos
      · decide
      · exact (Nat.log2_lt hpos.ne').2 hlt
    omega

/-- A rounded mantissa that is carried keeps its value. -/
theorem exists_carried {r : Nat} {t : Int} (hr : r ≤ 2 ^ 53) (ht : -1074 ≤ t)
    (hnormal : 2 ^ 52 ≤ r ∨ t = -1074) :
    ∃ em e, shiftToTargetExponent Format.binary64 r t .exact = (em, e) ∧
      IsCanonical em.mantissa e ∧ (em.mantissa : ℚ) * 2 ^ e = r * 2 ^ t := by
  rcases hr.lt_or_eq with hlt | rfl
  · have hcanonical : IsCanonical r t := ⟨hlt, ht, hnormal⟩
    have hgrid := gridExponent_of_isCanonical hcanonical
    refine ⟨_, _, shiftToTargetExponent_eq .exact hgrid.ge, ?_⟩
    rw [hgrid, sub_self]
    exact ⟨hcanonical, rfl⟩
  · have hgrid : gridExponent (2 ^ 53) t = t + 1 := by
      unfold gridExponent
      rw [Nat.log2_two_pow]
      omega
    have hone : (t + 1 - t).toNat = 1 := by omega
    have hpow : (2 : ℚ) ^ (t + 1) = 2 ^ t * 2 := zpow_add_one₀ two_ne_zero t
    refine ⟨_, _, shiftToTargetExponent_eq .exact (by omega), ?_⟩
    rw [hgrid, hone]
    refine ⟨⟨?_, by omega, .inl ?_⟩, ?_⟩
    · show 2 ^ 53 / 2 < 2 ^ 53
      decide
    · show 2 ^ 52 ≤ 2 ^ 53 / 2
      decide
    · show ((2 ^ 53 / 2 : Nat) : ℚ) * 2 ^ (t + 1) = ((2 ^ 53 : Nat) : ℚ) * 2 ^ t
      have hhalf : ((2 ^ 53 : Nat) : ℚ) = (2 ^ 53 / 2 : Nat) * 2 := by norm_num
      rw [hpow, hhalf]
      ring

section RoundWithAccuracy

variable {m : Nat} {e : Int} {a : Accuracy} {v : ℚ}

theorem mantissa_ofMantissaAndAccuracy (m : Nat) (a : Accuracy) :
    (ExtendedMantissa.ofMantissaAndAccuracy m a).mantissa = m := by
  cases a with
  | exact => rfl
  | inexact o => cases o <;> rfl

/-- On its grid a number has no more than 53 bits, and has that many unless the grid is
the finest there is. -/
theorem bits_on_grid (hv : Represents (ExtendedMantissa.ofMantissaAndAccuracy m a) v)
    (hgrid : e ≤ gridExponent m e) :
    v / 2 ^ (gridExponent m e - e).toNat < 2 ^ 53 ∧
      (2 ^ 52 ≤ v / 2 ^ (gridExponent m e - e).toNat ∨ gridExponent m e = -1074) := by
  obtain ⟨hlow, hhigh⟩ := hv.bounds
  rw [mantissa_ofMantissaAndAccuracy] at hlow hhigh
  unfold gridExponent at *
  have hpow : (0 : ℚ) < 2 ^ (max (m.log2 + e - 52) (-1074) - e).toNat := pow_pos two_pos _
  constructor
  · have hlog : m + 1 ≤ 2 ^ (53 + (max (m.log2 + e - 52) (-1074) - e).toNat) :=
      le_trans (Nat.succ_le_of_lt Nat.lt_log2_self) (Nat.pow_le_pow_right two_pos (by omega))
    rw [div_lt_iff₀ hpow, ← pow_add]
    exact hhigh.trans_le (by exact_mod_cast hlog)
  · rw [or_iff_not_imp_right]
    intro hne
    have hlog : m.log2 = 52 + (max (m.log2 + e - 52) (-1074) - e).toNat := by omega
    have hzero : m ≠ 0 := by
      rintro rfl
      have hlog0 : Nat.log2 0 = 0 := rfl
      omega
    have hself : 2 ^ (52 + (max (m.log2 + e - 52) (-1074) - e).toNat) ≤ m :=
      hlog ▸ Nat.log2_self_le hzero
    rw [le_div_iff₀ hpow, ← pow_add]
    exact le_trans (by exact_mod_cast hself) hlow

/-- A number written with a larger exponent. -/
theorem mul_two_zpow {e t : Int} (v : ℚ) (h : e ≤ t) :
    v * 2 ^ e = v / 2 ^ (t - e).toNat * 2 ^ t := by
  have hpow : (2 : ℚ) ^ t = 2 ^ e * 2 ^ (t - e).toNat := by
    rw [← zpow_natCast, ← zpow_add₀ two_ne_zero, Int.toNat_of_nonneg (by omega), add_sub_cancel]
  rw [hpow, mul_left_comm, div_mul_cancel₀ v (pow_ne_zero _ two_ne_zero), mul_comm]

/-- Half a step on the grid apart is nearest. -/
theorem rounds_of_grid (s : Sign) {w : ℚ} {r : Nat} {t : Int} (hpos : 0 ≤ w)
    (hfull : 2 ^ 52 ≤ w ∨ t = -1074) (hr : |(r : ℚ) - w| ≤ 1 / 2) :
    Rounds (signed s (r * 2 ^ t)) (signed s (w * 2 ^ t)) := by
  have hpow : (0 : ℚ) < 2 ^ t := zpow_pos two_pos t
  refine ⟨t, ?_, ?_, ?_⟩
  · rcases hfull with hfull | rfl
    · refine le_max_of_le_left ?_
      rw [abs_signed, abs_of_nonneg (mul_nonneg hpos hpow.le), le_div_iff₀ (by norm_num), mul_comm]
      exact mul_le_mul_of_nonneg_right hfull hpow.le
    · exact le_max_right _ _
  · cases s with
    | positive => exact ⟨r, by rw [Int.cast_natCast]; rfl⟩
    | negative => exact ⟨-r, by rw [Int.cast_neg, Int.cast_natCast, neg_mul]; rfl⟩
  · rw [signed_sub, abs_signed, ← sub_mul, abs_mul, abs_of_pos hpow]
    linarith [mul_le_mul_of_nonneg_right hr hpow.le]

/-- **What is rounded is nearest**, if no bits are missing in front of the grid. -/
theorem nearest_roundWithAccuracy (s : Sign)
    (hv : Represents (ExtendedMantissa.ofMantissaAndAccuracy m a) v)
    (hgrid : e ≤ gridExponent m e) :
    Nearest (roundWithAccuracy Format.binary64 s m e a) (signed s (v * 2 ^ e)) := by
  obtain ⟨hfits, hfull⟩ := bits_on_grid hv hgrid
  have hfirst := shiftToTargetExponent_eq a hgrid
  have hshift := hv.shiftRight (gridExponent m e - e).toNat
  have hmin : -1074 ≤ gridExponent m e := le_max_right _ _
  rw [mul_two_zpow v hgrid]
  generalize ExtendedMantissa.ofMantissaAndAccuracy m a >>> (gridExponent m e - e).toNat = em at *
  generalize v / 2 ^ (gridExponent m e - e).toNat = w at *
  generalize gridExponent m e = t at *
  obtain ⟨hlow, hhigh⟩ := hshift.bounds
  have hbounds := roundedMantissa_bounds em
  have hrounds := rounds_of_grid s (le_trans (Nat.cast_nonneg _) hlow) hfull hshift.roundedMantissa
  have hr : em.roundedMantissa ≤ 2 ^ 53 := by
    have hlt : em.mantissa < 2 ^ 53 := by exact_mod_cast hlow.trans_lt hfits
    omega
  have hnormal : 2 ^ 52 ≤ em.roundedMantissa ∨ t = -1074 := by
    refine hfull.imp_left fun hfull => ?_
    have hlt : 2 ^ 52 < em.mantissa + 1 := by exact_mod_cast hfull.trans_lt hhigh
    omega
  obtain ⟨em', e', hsecond, hcanonical, hvalue⟩ := exists_carried hr hmin hnormal
  unfold roundWithAccuracy
  rw [hfirst]
  dsimp only
  rw [hsecond]
  dsimp only
  rw [← hvalue] at hrounds
  by_cases hzero : em'.mantissa = 0
  · rw [dif_pos hzero]
    rw [hzero, Nat.cast_zero, zero_mul, signed_zero] at hrounds
    exact ⟨trivial, hrounds⟩
  · rw [dif_neg hzero]
    exact ⟨hcanonical, hrounds⟩

end RoundWithAccuracy

end Stepwise.Binary
