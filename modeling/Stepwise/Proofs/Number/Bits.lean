import Stepwise.Number.Decimal

/-!
# The bits of doubles

A double is a pattern of 64 bits: a sign, an exponent, a mantissa. Of the many
patterns of the value that is no number only one is allowed, so unpacking a pattern
and packing it again loses nothing (`pack_unpack`):

> `ofRank_rank`: a double is known by its sign and its rank.

What is below the rank of the infinities is a number, so it equals itself
(`beq_self`).
-/

namespace Stepwise.Binary

open Float.Model (Format)
open Float.Model.UnpackedFloat

theorem binade_eq : binade = 4503599627370496 := rfl

theorem binade_pos : 0 < binade := by decide

/-! ## Packing -/

theorem toBitVec_ofBitVec (v : BitVec 1) : (Sign.ofBitVec v).toBitVec = v := by
  revert v
  decide

/-- The three parts of a pattern make up the pattern. -/
theorem packComponents_parts (b : BitVec Format.binary64.numBits) :
    packComponents Format.binary64 (.ofBitVec (unpackSign b)) (unpackExponent b)
      (unpackMantissa b) = b := by
  show ((Sign.ofBitVec (b.extractLsb 63 63)).toBitVec ++ b.extractLsb 62 52 ++
    b.extractLsb 51 0 : BitVec 64) = b
  rw [toBitVec_ofBitVec]
  -- Bit by bit: 52 of the mantissa, 11 of the exponent, the sign.
  refine BitVec.eq_of_getLsbD_eq fun i hi => ?_
  have hi : i < 64 := hi
  simp only [BitVec.getLsbD_append, BitVec.getLsbD_extractLsb]
  by_cases hmantissa : i < 52
  · simp [hmantissa]
  · by_cases hexponent : i - 52 < 11
    · have hplace : 52 + (i - 52) = i := by omega
      simp [hmantissa, hexponent, hplace]
    · have hsign : i = 63 := by omega
      subst hsign
      rfl

/-- A subnormal number is packed with the exponent zero: its mantissa is too short
for an implied leading bit. -/
theorem pack_subnormal (s : Sign) {m : Nat} (hpos : 0 < m) (hm : m < binade) :
    pack Format.binary64 (.finite s m (-1074) hpos) =
      packComponents Format.binary64 s 0#_ (.ofNat _ m) := by
  have hlog : m.log2 < 52 := (Nat.log2_lt (by omega)).2 hm
  have hbits : Format.binary64.mantissaBits = 53 := rfl
  unfold pack
  dsimp only
  rw [if_neg (by decide), if_neg (by omega)]

/-- A normal number is packed with its own exponent and without its leading bit. -/
theorem pack_normal (s : Sign) {e m : Nat} (he : e < 2047) (hm : m < binade) :
    pack Format.binary64 (.finite s (binade + m) (e - 1075) (Nat.add_pos_left binade_pos m)) =
      packComponents Format.binary64 s (.ofNat _ e) (.ofNat _ m) := by
  rw [binade_eq] at hm
  have hlog : (binade + m).log2 = 52 := by
    rw [Nat.log2_eq_iff (by rw [binade_eq]; omega), binade_eq]
    omega
  have hbits : Format.binary64.mantissaBits = 53 := rfl
  have hbias : Format.binary64.exponentBias = 1023 := by decide
  have hstored : ((e : Int) - 1075 + (1023 : Nat) + (52 : Nat)).toNat = e := by omega
  have hleading : BitVec.ofNat 52 (binade + m) = BitVec.ofNat 52 m := by
    refine BitVec.eq_of_toNat_eq ?_
    rw [BitVec.toNat_ofNat, BitVec.toNat_ofNat, binade_eq]
    omega
  unfold pack
  dsimp only
  rw [hbias, hstored, hlog, hbits, if_neg (by omega), if_pos rfl, hleading]

theorem toNat_implied (b : BitVec Format.binary64.numBits) :
    (1#1 ++ unpackMantissa b).toNat = binade + (unpackMantissa b).toNat := by
  have hlt : (unpackMantissa b).toNat < binade := (unpackMantissa b).isLt
  rw [BitVec.toNat_append, ← Nat.shiftLeft_add_eq_or_of_lt hlt]
  rfl

/-- **A pattern survives being unpacked**, if it is not one of the spare patterns
of the value that is no number. -/
theorem pack_unpack {b : BitVec Format.binary64.numBits} (h : Format.binary64.Valid b) :
    pack Format.binary64 (unpack Format.binary64 b) = b := by
  have hparts := packComponents_parts b
  have hlt : (unpackMantissa b).toNat < binade := (unpackMantissa b).isLt
  have hbias : Format.binary64.exponentBias = 1023 := by decide
  unfold unpack
  dsimp only
  by_cases hones : unpackExponent b = -1#_
  · -- Infinity, or no number.
    rw [if_pos hones]
    rw [hones] at hparts
    by_cases hzero : unpackMantissa b = 0#_
    · rw [if_pos hzero]
      rwa [hzero] at hparts
    · rw [if_neg hzero]
      exact (h.eq_packedNaN hones hzero).symm
  · rw [if_neg hones]
    by_cases hzeros : unpackExponent b = 0#_
    · -- Zero, or subnormal.
      rw [if_pos hzeros]
      rw [hzeros] at hparts
      by_cases hzero : unpackMantissa b = 0#_
      · rw [dif_pos hzero]
        rwa [hzero] at hparts
      · rw [dif_neg hzero]
        have hpos : 0 < (unpackMantissa b).toNat := by
          refine Nat.pos_of_ne_zero fun hnat => hzero ?_
          exact BitVec.eq_of_toNat_eq hnat
        have hpack := pack_subnormal (.ofBitVec (unpackSign b)) hpos hlt
        rw [BitVec.ofNat_toNat, BitVec.setWidth_eq, hparts] at hpack
        rw [hzeros, hbias]
        exact hpack
    · -- Normal: the leading bit is implied.
      rw [if_neg hzeros]
      have he : (unpackExponent b).toNat < 2047 := by
        have hle : (unpackExponent b).toNat < 2048 := (unpackExponent b).isLt
        have hne : (unpackExponent b).toNat ≠ 2047 := by
          intro hnat
          exact hones (BitVec.eq_of_toNat_eq hnat)
        omega
      have hpack := pack_normal (.ofBitVec (unpackSign b)) he hlt
      rw [BitVec.ofNat_toNat, BitVec.ofNat_toNat, BitVec.setWidth_eq, BitVec.setWidth_eq, hparts]
        at hpack
      -- The positivity of the significand is a proof in the number, so it moves along.
      have hmove : ∀ m e (hm : 0 < m), m = binade + (unpackMantissa b).toNat →
          e = ((unpackExponent b).toNat : Int) - 1075 →
          pack Format.binary64 (.finite (.ofBitVec (unpackSign b)) m e hm) = b := by
        rintro _ _ _ rfl rfl
        exact hpack
      refine hmove _ _ _ (toNat_implied b) ?_
      rw [hbias]
      rfl

/-- Doubles of the same bits are the same. -/
theorem ext_bits {x y : Float} (h : x.toModel.toBits = y.toModel.toBits) : x = y := by
  obtain ⟨⟨bits, hvalid⟩⟩ := x
  obtain ⟨⟨bits', hvalid'⟩⟩ := y
  cases h
  rfl

theorem ofBits_toBits (x : Float) : Float.ofBits x.toBits = x := by
  refine ext_bits ?_
  show UInt64.ofBitVec (pack Format.binary64 (unpack Format.binary64 x.toModel.toBits.toBitVec)) =
    x.toModel.toBits
  rw [pack_unpack x.toModel.valid]

/-! ## Ranks -/

/-- **Sign and rank are all there is to a double.** -/
theorem ofRank_rank (x : Float) : ofRank (isNegative x) (rank x) = x := by
  have hlt : x.toBits.toNat < 2 * signBit := x.toBits.toNat_lt
  have hbits : (if isNegative x then signBit + rank x else rank x) = x.toBits.toNat := by
    unfold isNegative rank
    split
    · next h =>
      have hle : signBit ≤ x.toBits.toNat := of_decide_eq_true h
      rw [Nat.mod_eq_sub_mod hle, Nat.mod_eq_of_lt (by omega)]
      omega
    · next h =>
      have hgt : ¬ signBit ≤ x.toBits.toNat := fun hle => h (decide_eq_true hle)
      exact Nat.mod_eq_of_lt (by omega)
  unfold ofRank
  rw [hbits, UInt64.ofNat_toNat, ofBits_toBits]

/-! ## Doubles of a finite rank -/

theorem toNat_unpackSign (b : UInt64) :
    (@unpackSign Format.binary64 b.toBitVec).toNat = b.toNat / signBit % 2 := by
  show (BitVec.cast _ (BitVec.extractLsb _ _ b.toBitVec)).toNat = _
  rw [BitVec.toNat_cast, BitVec.extractLsb_toNat, Nat.shiftRight_eq_div_pow]
  rfl

theorem toNat_unpackExponent (b : UInt64) :
    (@unpackExponent Format.binary64 b.toBitVec).toNat = b.toNat / binade % 2048 := by
  show (BitVec.cast _ (BitVec.extractLsb _ _ b.toBitVec)).toNat = _
  rw [BitVec.toNat_cast, BitVec.extractLsb_toNat, Nat.shiftRight_eq_div_pow]
  rfl

theorem toNat_unpackMantissa (b : UInt64) :
    (@unpackMantissa Format.binary64 b.toBitVec).toNat = b.toNat % binade := by
  show (BitVec.cast _ (BitVec.extractLsb _ _ b.toBitVec)).toNat = _
  rw [BitVec.toNat_cast, BitVec.extractLsb_toNat, Nat.shiftRight_zero]
  rfl

/-- The exponent of the infinities, and of what is no number, is no finite rank's. -/
theorem unpackExponent_ne_ones {b : UInt64} (h : b.toNat % signBit < infinityRank) :
    @unpackExponent Format.binary64 b.toBitVec ≠ -1#_ := by
  intro hones
  have hnat : b.toNat / binade % 2048 = 2047 := by
    rw [← toNat_unpackExponent, hones]
    rfl
  have hrank : b.toNat % 9223372036854775808 < 2047 * binade := h
  rw [binade_eq] at hnat hrank
  omega

theorem ofBitVec_unpackSign (x : Float) :
    Sign.ofBitVec (@unpackSign Format.binary64 x.toBits.toBitVec) =
      if isNegative x then .negative else .positive := by
  have hnat := toNat_unpackSign x.toBits
  have hlt : x.toBits.toNat < 18446744073709551616 := x.toBits.toNat_lt
  have hsign : signBit = 9223372036854775808 := rfl
  rw [hsign] at hnat
  unfold Sign.ofBitVec
  by_cases hneg : isNegative x = true
  · have hle : signBit ≤ x.toBits.toNat := of_decide_eq_true hneg
    rw [if_pos hneg, if_neg]
    intro hzero
    rw [hzero] at hnat
    change 0 = _ at hnat
    rw [hsign] at hle
    omega
  · have hgt : ¬ signBit ≤ x.toBits.toNat := fun hle => hneg (decide_eq_true hle)
    rw [if_neg hneg, if_pos]
    refine BitVec.eq_of_toNat_eq ?_
    rw [hnat]
    change _ = 0
    rw [hsign] at hgt
    omega

/-- The exponent and the mantissa are zero together exactly at rank zero. -/
theorem rank_eq_zero_iff {x : Float} : rank x = 0 ↔
    @unpackExponent Format.binary64 x.toBits.toBitVec = 0#_ ∧
      @unpackMantissa Format.binary64 x.toBits.toBitVec = 0#_ := by
  have hlt : x.toBits.toNat < 18446744073709551616 := x.toBits.toNat_lt
  have hsign : signBit = 9223372036854775808 := rfl
  rw [← BitVec.toNat_inj, ← BitVec.toNat_inj, toNat_unpackExponent, toNat_unpackMantissa]
  change _ ↔ _ = 0 ∧ _ = 0
  unfold rank
  rw [hsign, binade_eq]
  omega

/-- What has the same sign, significand and exponent is the same number. -/
theorem exists_finite {s s' : Sign} {m m' : Nat} {e e' : Int} {hm : 0 < m} (hs : s = s')
    (h : m = m') (he : e = e') :
    ∃ hm', Float.Model.UnpackedFloat.finite s m e hm = .finite s' m' e' hm' := by
  subst hs h he
  exact ⟨hm, rfl⟩

/-- A double of a finite rank is a zero, or has the significand and the scale of its rank,
behind its sign. -/
theorem unpack_cases {x : Float} (h : rank x < infinityRank) :
    (rank x = 0 ∧ unpack Format.binary64 x.toBits.toBitVec =
      .zero (if isNegative x then .negative else .positive)) ∨
    (rank x ≠ 0 ∧ ∃ hm, unpack Format.binary64 x.toBits.toBitVec =
      .finite (if isNegative x then .negative else .positive) (significand (rank x))
        (scale (rank x) - 1074) hm) := by
  have hexponentNat := toNat_unpackExponent x.toBits
  have hmantissaNat := toNat_unpackMantissa x.toBits
  have hsign : signBit = 9223372036854775808 := rfl
  have hbias : Format.binary64.exponentBias = 1023 := by decide
  rw [Ne, rank_eq_zero_iff]
  unfold unpack
  dsimp only
  rw [if_neg (unpackExponent_ne_ones h), ofBitVec_unpackSign]
  by_cases hexponent : @unpackExponent Format.binary64 x.toBits.toBitVec = 0#_
  · rw [if_pos hexponent]
    by_cases hmantissa : @unpackMantissa Format.binary64 x.toBits.toBitVec = 0#_
    · rw [dif_pos hmantissa]
      exact .inl ⟨⟨hexponent, hmantissa⟩, rfl⟩
    · rw [dif_neg hmantissa]
      -- A subnormal rank is its own significand.
      have hlow : x.toBits.toNat / binade % 2048 = 0 := by
        rw [← hexponentNat, hexponent]
        rfl
      have hrank : rank x = x.toBits.toNat % binade := by
        unfold rank
        rw [hsign, binade_eq] at *
        omega
      have hlt : rank x < binade := hrank ▸ Nat.mod_lt _ binade_pos
      refine .inr ⟨fun hzeros => hmantissa hzeros.2, exists_finite rfl ?_ ?_⟩
      · rw [hmantissaNat, significand, if_pos hlt, hrank]
      · rw [hexponent, hbias, scale, Nat.div_eq_of_lt hlt]
        rfl
  · rw [if_neg hexponent]
    have hhigh : x.toBits.toNat / binade % 2048 ≠ 0 := by
      rw [← hexponentNat]
      exact fun hzero => hexponent (BitVec.eq_of_toNat_eq hzero)
    have hrank : rank x = x.toBits.toNat / binade % 2048 * binade + x.toBits.toNat % binade := by
      unfold rank
      rw [hsign, binade_eq]
      omega
    have hmod := Nat.mod_lt x.toBits.toNat binade_pos
    have hdiv : rank x / binade = x.toBits.toNat / binade % 2048 := by
      rw [binade_eq] at *
      omega
    refine .inr ⟨fun hzeros => hexponent hzeros.1, exists_finite rfl ?_ ?_⟩
    · rw [toNat_implied, hmantissaNat, significand, if_neg]
      · rw [binade_eq] at *
        omega
      · rw [binade_eq] at *
        omega
    · rw [hexponentNat, hbias, scale, hdiv]
      omega

/-- What is a number equals itself. -/
theorem beq_self_of_ne_notANumber {f : Float.Model.UnpackedFloat} (h : f ≠ .notANumber) :
    f.beq f = true := by
  cases f with
  | notANumber => exact absurd rfl h
  | infinity s => cases s <;> rfl
  | zero s => cases s <;> rfl
  | finite s m e hm =>
    have hexponent : compare e e = .eq := Std.ReflCmp.compare_self
    have hmantissa : compare m m = .eq := Std.ReflCmp.compare_self
    cases s with
    | negative =>
      show (some ((compare e e).then (compare m m)).swap == some .eq) = true
      rw [hexponent, hmantissa]
      rfl
    | positive =>
      show (some ((compare e e).then (compare m m)) == some .eq) = true
      rw [hexponent, hmantissa]
      rfl

theorem beq_self {x : Float} (h : rank x < infinityRank) : (x == x) = true := by
  refine beq_self_of_ne_notANumber (f := unpack Format.binary64 x.toBits.toBitVec) ?_
  rcases unpack_cases h with ⟨-, hx⟩ | ⟨-, hm, hx⟩
  · rw [hx]
    intro hnan
    cases hnan
  · rw [hx]
    intro hnan
    cases hnan

end Stepwise.Binary
