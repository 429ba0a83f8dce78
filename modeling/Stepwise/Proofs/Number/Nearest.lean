import Stepwise.Proofs.Number.Bits

/-!
# The nearest double

The value of a rank is a whole number of units `2 ^ -1074`: a significand times a
power of two, which is the grid on which values of its size are rounded. A value
that lies on its grid is its own rounding, and the rank counts the significand and
the grid (`significand_add_scale`):

> `nearestRank_of_exact`: a finite rank is nearest to its own value.

In units of `10 ^ -1074` the value is a whole number of digits, so the exact
decimal reads back; each shorter decimal that is tried is checked by reading it.
Either way the shortest decimal reads back (`toRank_shortest`).
-/

namespace Stepwise.Binary

/-- A quotient without remainder is its own rounding. -/
theorem roundHalfEven_mul (n : Nat) {den : Nat} (h : 0 < den) :
    roundHalfEven (n * den) den = n := by
  unfold roundHalfEven
  rw [Nat.mul_div_cancel _ h, Nat.mul_mod_left]
  exact if_pos (by omega)

theorem roundHalfEven_mul_right (num den : Nat) {factor : Nat} (h : 0 < factor) :
    roundHalfEven (num * factor) (den * factor) = roundHalfEven num den := by
  have htwice : 2 * (num % den * factor) = 2 * (num % den) * factor := (Nat.mul_assoc ..).symm
  unfold roundHalfEven
  dsimp only
  rw [Nat.mul_div_mul_right _ _ h, Nat.mul_mod_mul_right, htwice]
  simp only [Nat.mul_lt_mul_right h]

/-- **Rounding does not depend on how a quotient is written.** -/
theorem nearestRank_congr {num den num' den' : Nat} (hden : 0 < den) (hden' : 0 < den')
    (h : num * den' = num' * den) : nearestRank num den = nearestRank num' den' := by
  have hscale (n d : Nat) {factor : Nat} (hfactor : 0 < factor) :
      nearestRank (n * factor) (d * factor) = nearestRank n d := by
    have hunits : n * factor * unitsPerOne = n * unitsPerOne * factor := Nat.mul_right_comm ..
    unfold nearestRank
    dsimp only
    rw [hunits, Nat.mul_div_mul_right _ _ hfactor, Nat.mul_right_comm d factor,
      roundHalfEven_mul_right _ _ hfactor]
  rw [← hscale num den hden', ← hscale num' den' hden, h, Nat.mul_comm den den']

theorem significand_lt (r : Nat) : significand r < .pow 2 53 := by
  have hmod := Nat.mod_lt r binade_pos
  have hpow : Nat.pow 2 53 = 2 * binade := rfl
  rw [hpow]
  unfold significand
  split
  · omega
  · omega

/-- The significand and the binade count the rank. -/
theorem significand_add_scale (r : Nat) : significand r + scale r * binade = r := by
  unfold significand scale
  split
  · next h => rw [Nat.div_eq_of_lt h, Nat.zero_sub, Nat.zero_mul, Nat.add_zero]
  · next h =>
    have hdiv : 1 ≤ r / binade := (Nat.one_le_div_iff binade_pos).2 (by omega)
    have hmod := Nat.div_add_mod' r binade
    have hsucc : r / binade * binade = (r / binade - 1) * binade + binade := by
      rw [← Nat.succ_mul, Nat.succ_eq_add_one, Nat.sub_add_cancel hdiv]
    omega

/-- The position of the leading bit tells the grid on which a value is rounded. -/
theorem log2_units (r : Nat) : (units r).log2 - 52 = scale r := by
  have hlt := significand_lt r
  have hpow : units r = significand r * 2 ^ scale r := rfl
  by_cases h : r < binade
  · -- Subnormal: the value is its significand, of 52 bits at most.
    have hscale : scale r = 0 := by
      unfold scale
      rw [Nat.div_eq_of_lt h]
    have hunits : units r < 2 ^ 52 := by
      rw [hpow, hscale, Nat.pow_zero, Nat.mul_one]
      unfold significand
      rwa [if_pos h]
    rw [hscale]
    by_cases hzero : units r = 0
    · rw [hzero]
      rfl
    · have hlog := (Nat.log2_lt hzero).2 hunits
      omega
  · -- Normal: the significand has 53 bits, the leading one implied.
    have hle : 2 ^ 52 ≤ significand r := by
      unfold significand
      rw [if_neg h]
      exact Nat.le_add_right ..
    have hlow : 2 ^ (52 + scale r) ≤ units r := by
      rw [hpow, Nat.pow_add]
      exact Nat.mul_le_mul_right _ hle
    have hhigh : units r < 2 ^ (52 + scale r + 1) := by
      rw [hpow, show 52 + scale r + 1 = 53 + scale r by omega, Nat.pow_add]
      exact Nat.mul_lt_mul_of_pos_right hlt (Nat.two_pow_pos _)
    have hzero : units r ≠ 0 := by
      have := Nat.two_pow_pos (52 + scale r)
      omega
    rw [(Nat.log2_eq_iff hzero).2 ⟨hlow, hhigh⟩]
    omega

/-- **Rounding changes no double**: the nearest rank to the exact value of a finite
rank is that rank. -/
theorem nearestRank_of_exact {r num den : Nat} (hr : r ≤ infinityRank) (hden : 0 < den)
    (h : num * unitsPerOne = units r * den) : nearestRank num den = r := by
  -- The value picks its own grid, on which it is a whole number of steps: the
  -- significand.
  have hscaled : num * unitsPerOne / den = units r := by rw [h, Nat.mul_div_cancel _ hden]
  have hpow : 0 < den * Nat.pow 2 (scale r) := Nat.mul_pos hden (Nat.two_pow_pos _)
  have hgrid : num * unitsPerOne = significand r * (den * Nat.pow 2 (scale r)) := by
    rw [h]
    unfold units
    ac_rfl
  unfold nearestRank
  dsimp only
  rw [hscaled, log2_units, hgrid, roundHalfEven_mul _ hpow, significand_add_scale]
  exact Nat.min_eq_right hr

/-- A value below one significand of a scale is rounded to that binade or a lower one. -/
theorem nearestRank_le {num den s : Nat}
    (h : num * unitsPerOne / den < .pow 2 53 * .pow 2 s) :
    nearestRank num den ≤ (s + 2) * binade := by
  have hpow : Nat.pow 2 (53 + s) = .pow 2 53 * .pow 2 s := Nat.pow_add 2 53 s
  rw [← hpow] at h
  unfold nearestRank
  generalize num * unitsPerOne = scaled at h ⊢
  dsimp only
  have hshift : (scaled / den).log2 - 52 ≤ s := by
    by_cases hzero : scaled / den = 0
    · rw [hzero]
      exact Nat.zero_le _
    · have hlog := (Nat.log2_lt hzero).2 h
      omega
  have hlow : scaled / (den * .pow 2 ((scaled / den).log2 - 52)) < .pow 2 53 := by
    rw [← Nat.div_div_eq_div_mul]
    refine Nat.div_lt_of_lt_mul ?_
    calc scaled / den < 2 ^ ((scaled / den).log2 + 1) := Nat.lt_log2_self
      _ ≤ 2 ^ ((scaled / den).log2 - 52 + 53) := Nat.pow_le_pow_right (by decide) (by omega)
      _ = .pow 2 ((scaled / den).log2 - 52) * .pow 2 53 := Nat.pow_add ..
  have hround : ∀ d, roundHalfEven scaled d ≤ scaled / d + 1 := by
    intro d
    unfold roundHalfEven
    dsimp only
    split
    · exact Nat.le_succ _
    · split
      · exact Nat.le_refl _
      · omega
  have hsignificand : roundHalfEven scaled (den * .pow 2 ((scaled / den).log2 - 52)) ≤
      2 * binade := Nat.le_trans (hround _) hlow
  calc min infinityRank _ ≤ _ := Nat.min_le_right ..
    _ ≤ 2 * binade + s * binade := Nat.add_le_add hsignificand (Nat.mul_le_mul_right _ hshift)
    _ = (s + 2) * binade := by rw [Nat.add_comm, Nat.add_mul]

/-- The scale of the largest finite ranks. -/
def maxScale : Nat := 2045

theorem scale_le {r : Nat} (h : r < infinityRank) : scale r ≤ maxScale := by
  have hdiv : r / binade < 2047 := Nat.div_lt_of_lt_mul (by rwa [Nat.mul_comm])
  unfold scale maxScale
  omega

/-- The value of a finite rank is below one significand of the largest scale. -/
theorem units_lt {r : Nat} (h : r < infinityRank) : units r < .pow 2 (53 + maxScale) := by
  calc units r < .pow 2 53 * .pow 2 (scale r) :=
        Nat.mul_lt_mul_of_pos_right (significand_lt r) (Nat.two_pow_pos _)
    _ = .pow 2 (53 + scale r) := (Nat.pow_add 2 53 (scale r)).symm
    _ ≤ .pow 2 (53 + maxScale) := by
        have hle := Nat.add_le_add_left (scale_le h) 53
        generalize 53 + maxScale = largest at hle ⊢
        exact Nat.pow_le_pow_right (by decide) hle

theorem units_pos {r : Nat} (h : 0 < r) : 0 < units r := by
  refine Nat.mul_pos ?_ (Nat.two_pow_pos _)
  unfold significand
  split
  · exact h
  · exact Nat.add_pos_left binade_pos _

end Stepwise.Binary

namespace Stepwise.Decimal

/-- How many of the finest decimal places `10 ^ -1074` make the unit `2 ^ -1074`. -/
def placesPerUnit : Nat := .pow 5 1074

theorem digits_ofRank (r : Nat) : (ofRank r).digits = Binary.units r * placesPerUnit := by
  unfold ofRank placesPerUnit
  rfl

theorem placesPerUnit_pos : 0 < placesPerUnit := by decide +kernel

theorem placesPerUnit_mul_unitsPerOne : placesPerUnit * Binary.unitsPerOne = tenTo 1074 := by
  decide +kernel

theorem toRank_zero (exponent : Int) : toRank ⟨0, exponent⟩ = 0 := by
  unfold toRank
  exact if_pos (.inl rfl)

theorem tenTo_pos (power : Int) : 0 < tenTo power := Nat.pow_pos (by decide)

/-- The exact value of a finite rank has as many digits as a decimal may have. -/
theorem length_digits_ofRank {r : Nat} (hpos : 0 < r) (hr : r < Binary.infinityRank) :
    674 < (Nat.repr (ofRank r).digits).length ∧ (Nat.repr (ofRank r).digits).length ≤ 1474 := by
  rw [digits_ofRank, ← Nat.not_le, Nat.length_repr_le_iff (by decide),
    Nat.length_repr_le_iff (by decide)]
  constructor
  · refine Nat.not_lt.2 (Nat.le_trans ?_ (Nat.le_mul_of_pos_left _ (Binary.units_pos hpos)))
    decide +kernel
  · calc Binary.units r * placesPerUnit < .pow 2 (53 + Binary.maxScale) * placesPerUnit :=
          Nat.mul_lt_mul_of_pos_right (Binary.units_lt hr) placesPerUnit_pos
      _ ≤ 10 ^ 1474 := by decide +kernel

/-- The exact value of a finite rank reads back. -/
theorem toRank_ofRank {r : Nat} (hpos : 0 < r) (hr : r < Binary.infinityRank) :
    (ofRank r).toRank = r := by
  obtain ⟨hlow, hhigh⟩ := length_digits_ofRank hpos hr
  have hexponent : (ofRank r).exponent = -1074 := by unfold ofRank; rfl
  have hzero : (ofRank r).digits ≠ 0 :=
    Nat.ne_of_gt (digits_ofRank r ▸ Nat.mul_pos (Binary.units_pos hpos) placesPerUnit_pos)
  unfold toRank
  dsimp only
  rw [if_neg (by omega), if_neg (by omega), hexponent, digits_ofRank]
  refine Binary.nearestRank_of_exact (Nat.le_of_lt hr) (tenTo_pos _) ?_
  have hone : tenTo (-1074) = 1 := by decide
  rw [hone, Nat.mul_one, Nat.mul_assoc, placesPerUnit_mul_unitsPerOne]
  rfl

/-- What is found on a grid reads back. -/
theorem toRank_of_onGrid? {r : Nat} {exponent : Int} {d : Decimal}
    (h : onGrid? r exponent = some d) : d.toRank = r := by
  unfold onGrid? at h
  dsimp only at h
  -- Which neighbour is nearer does not matter: either is checked by reading it.
  split at h <;> dsimp only at h
  all_goals
    split at h
    · next hnear => exact Option.some.inj h ▸ hnear
    · split at h
      · next hfar => exact Option.some.inj h ▸ hfar
      · cases h

theorem toRank_firstOnGrid {r : Nat} (hpos : 0 < r) (hr : r < Binary.infinityRank) (grids : Nat)
    (exponent : Int) : (firstOnGrid r grids exponent).toRank = r := by
  -- Each grid is ten times finer than the one before; behind the last stands the
  -- exact value.
  induction grids generalizing exponent with
  | zero =>
    unfold firstOnGrid
    exact toRank_ofRank hpos hr
  | succ grids ih =>
    unfold firstOnGrid
    cases hgrid : onGrid? r exponent with
    | none => exact ih (exponent - 1)
    | some d => exact toRank_of_onGrid? hgrid

/-- **The shortest decimal of a finite rank reads back.** -/
theorem toRank_shortest {r : Nat} (hr : r < Binary.infinityRank) : (shortest r).toRank = r := by
  unfold shortest
  split
  · next h => exact h ▸ toRank_zero 0
  · next h => exact toRank_firstOnGrid (Nat.pos_of_ne_zero h) hr 20 _

end Stepwise.Decimal
