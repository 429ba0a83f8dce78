import Stepwise.Proofs.Number.Bits

/-!
# What is not finite

Sums, products, quotients and roots of what is not finite are not finite either, nor are
its floors. And it is what comes of a division by zero:

> `isFinite_div_zero`: a quotient by zero is not finite, whatever is divided.
-/

namespace Stepwise.Binary

open Float.Model (Format UnpackedFloat)
open Float.Model.UnpackedFloat

/-- A double taken apart. -/
def parts (x : Float) : UnpackedFloat := unpack Format.binary64 x.toBits.toBitVec

/-- An infinity and what is no number survive packing. -/
theorem unpack_pack {f : UnpackedFloat} (h : f.isFinite = false) :
    unpack Format.binary64 (pack Format.binary64 f) = f := by
  cases f with
  | infinity sign => cases sign <;> rfl
  | notANumber => rfl
  | zero sign => cases h
  | finite sign m e hm => cases h

/-- At the rank of infinity and above there are no numbers. -/
theorem isFinite_parts_of_infinityRank_le {x : Float} (h : infinityRank ≤ rank x) :
    (parts x).isFinite = false := by
  have hones : @unpackExponent Format.binary64 x.toBits.toBitVec = -1#_ := by
    rw [← BitVec.toNat_inj, toNat_unpackExponent]
    show _ = 2047
    have hsign : signBit = 9223372036854775808 := rfl
    have hrank : 2047 * binade ≤ x.toBits.toNat % signBit := h
    rw [hsign, binade_eq] at hrank
    rw [binade_eq]
    omega
  unfold parts unpack
  dsimp only
  rw [if_pos hones]
  split <;> rfl

/-- **A double is finite exactly if its parts are.** -/
theorem isFinite_eq (x : Float) : Number.isFinite x = (parts x).isFinite := by
  unfold Number.isFinite
  by_cases h : rank x < infinityRank
  · rw [decide_eq_true h]
    rcases unpack_cases h with ⟨-, hx⟩ | ⟨-, hm, hx⟩
    · exact (congrArg UnpackedFloat.isFinite hx).symm
    · exact (congrArg UnpackedFloat.isFinite hx).symm
  · rw [decide_eq_false h, isFinite_parts_of_infinityRank_le (Nat.not_lt.1 h)]

theorem parts_of_not_finite {x : Float} (h : Number.isFinite x = false) :
    (∃ sign, parts x = .infinity sign) ∨ parts x = .notANumber := by
  rw [isFinite_eq] at h
  cases hx : parts x with
  | infinity sign => exact .inl ⟨sign, rfl⟩
  | notANumber => exact .inr rfl
  | zero sign =>
    rw [hx] at h
    cases h
  | finite sign m e hm =>
    rw [hx] at h
    cases h

/-- What an operation packs is not finite if what it makes of the parts is not. -/
theorem isFinite_of_pack {x : Float} {f : UnpackedFloat} (h : f.isFinite = false)
    (hx : x.toBits = .ofBitVec (pack Format.binary64 f)) : Number.isFinite x = false := by
  rw [isFinite_eq]
  unfold parts
  rw [hx]
  exact (congrArg UnpackedFloat.isFinite (unpack_pack h)).trans h

/-! ## Operations -/

section Operations

variable {x y : Float}

theorem isFinite_mul (h : Number.isFinite x = false) (y : Float) :
    Number.isFinite (x * y) = false := by
  refine isFinite_of_pack (f := mul Format.binary64 (parts x) (parts y)) ?_ rfl
  rcases parts_of_not_finite h with ⟨sign, hx⟩ | hx
  · rw [hx]
    cases parts y <;> rfl
  · rw [hx]
    rfl

/-- A sum with an infinity is that infinity, or no number. -/
theorem isFinite_add (h : Number.isFinite x = false) (y : Float) :
    Number.isFinite (x + y) = false := by
  refine isFinite_of_pack (f := add Format.binary64 (parts x) (parts y)) ?_ rfl
  rcases parts_of_not_finite h with ⟨sign, hx⟩ | hx
  · rw [hx]
    cases parts y with
    | infinity sign' => cases sign <;> cases sign' <;> rfl
    | notANumber => rfl
    | zero sign' => rfl
    | finite sign' m e hm => rfl
  · rw [hx]
    rfl

theorem isFinite_div (h : Number.isFinite x = false) (y : Float) :
    Number.isFinite (x / y) = false := by
  refine isFinite_of_pack (f := div Format.binary64 (parts x) (parts y)) ?_ rfl
  rcases parts_of_not_finite h with ⟨sign, hx⟩ | hx
  · rw [hx]
    cases parts y <;> rfl
  · rw [hx]
    rfl

theorem isFinite_sqrt (h : Number.isFinite x = false) : Number.isFinite x.sqrt = false := by
  refine isFinite_of_pack (f := sqrt Format.binary64 (parts x)) ?_ rfl
  rcases parts_of_not_finite h with ⟨sign, hx⟩ | hx
  · rw [hx]
    cases sign <;> rfl
  · rw [hx]
    rfl

/-- What equals zero is a zero, of either sign. -/
theorem parts_of_beq_zero (h : (y == 0.0) = true) : ∃ sign, parts y = .zero sign := by
  have hzero : parts 0.0 = .zero .positive := rfl
  have h : (parts y).beq (parts 0.0) = true := h
  rw [hzero] at h
  cases hy : parts y with
  | zero sign => exact ⟨sign, rfl⟩
  | infinity sign =>
    rw [hy] at h
    cases sign <;> cases h
  | notANumber =>
    rw [hy] at h
    cases h
  | finite sign m e hm =>
    rw [hy] at h
    cases sign <;> cases h

/-- **A quotient by zero is not finite**, whatever is divided. -/
theorem isFinite_div_zero (x : Float) (h : (y == 0.0) = true) :
    Number.isFinite (x / y) = false := by
  obtain ⟨sign, hy⟩ := parts_of_beq_zero h
  refine isFinite_of_pack (f := div Format.binary64 (parts x) (parts y)) ?_ rfl
  rw [hy]
  cases parts x <;> rfl

/-- From two to the 52nd power on every double is its own floor, and so is what is not
finite. -/
theorem isFinite_floor (h : Number.isFinite x = false) : Number.isFinite (floor x) = false := by
  have hrank : infinityRank ≤ rank x := Nat.not_lt.1 (of_decide_eq_false h)
  have hwhole : 1075 * binade ≤ rank x := Nat.le_trans (by decide) hrank
  unfold floor
  dsimp only
  rwa [if_pos (.inr hwhole)]

end Operations

end Stepwise.Binary
