import Stepwise.Proofs.Number.Bits
import Stepwise.Proofs.Number.Nearest

/-!
# Numbers read back

The text of a number is a sign and a positional numeral. A numeral is read as its
digits, of which as many are places as stand behind the point, and zeros that only
fill up places change neither:

> `ofText?_text`: the text of a finite number reads back as the same number, the
> sign of zero included.

What is not finite has one of three texts, and none of them is a numeral
(`text_of_not_isFinite`).
-/

/-! ## Runs of characters -/

namespace Stepwise.Text

/-- A run of characters of one class ends where a character of another class stands. -/
theorem takeWhile_run {accept : Char → Bool} {run : List Char} (rest : List Char)
    (hrun : ∀ c ∈ run, accept c = true) (hrest : ∀ c ∈ rest.head?, accept c = false) :
    (run ++ rest).takeWhile accept = run ∧ (run ++ rest).dropWhile accept = rest := by
  rw [List.takeWhile_append_of_pos hrun, List.dropWhile_append_of_pos hrun]
  cases rest with
  | nil => simp
  | cons c rest => simp [hrest c rfl]

end Stepwise.Text

namespace Stepwise.Decimal

/-! ## Numerals -/

/-- A positional numeral: a run of digits, or two runs around a point of which one
may be empty. -/
structure IsNumeral (cs whole fraction : List Char) : Prop where
  digits : ∀ c ∈ whole ++ fraction, c.isDigit = true
  nonempty : whole ++ fraction ≠ []
  shape : cs = whole ∧ fraction = [] ∨ cs = whole ++ '.' :: fraction

namespace IsNumeral

variable {cs whole fraction : List Char}

theorem forall_mem (h : IsNumeral cs whole fraction) :
    ∀ c ∈ cs, c.isDigit = true ∨ c = '.' := by
  intro c hc
  have hdigits := h.digits c
  rcases h.shape with ⟨rfl, rfl⟩ | rfl <;> simp at hc hdigits <;> grind

end IsNumeral

/-- A numeral is read as its digits, with as many places as stand behind the point. -/
theorem ofText?_of_isNumeral {cs whole fraction : List Char} (h : IsNumeral cs whole fraction) :
    ofText? cs = some ⟨ofDigits (whole ++ fraction), -fraction.length⟩ := by
  have hwhole : ∀ c ∈ whole, c.isDigit = true := fun c hc =>
    h.digits c (List.mem_append_left _ hc)
  have hfraction : ∀ c ∈ fraction, c.isDigit = true := fun c hc =>
    h.digits c (List.mem_append_right _ hc)
  have hsome : ¬ (whole.isEmpty = true ∧ fraction.isEmpty = true) := by
    simpa using h.nonempty
  unfold ofText?
  rcases h.shape with ⟨rfl, rfl⟩ | rfl
  · obtain ⟨htake, hdrop⟩ := Text.takeWhile_run [] hwhole (by simp)
    rw [List.append_nil] at htake hdrop
    simp only [htake, hdrop, if_neg hsome, exponent?, Option.map_some, List.length_nil]
    rfl
  · obtain ⟨htake, hdrop⟩ := Text.takeWhile_run ('.' :: fraction) hwhole (by simp)
    obtain ⟨htake', hdrop'⟩ := Text.takeWhile_run [] hfraction (by simp)
    rw [List.append_nil] at htake' hdrop'
    simp only [htake, hdrop, htake', hdrop', if_neg hsome, exponent?, Option.map_some,
      Int.zero_sub]

/-! ## The text of a decimal -/

theorem ofDigits_replicate_append (zeros : Nat) (n : Nat) :
    ofDigits (List.replicate zeros '0' ++ Nat.toDigits 10 n) = n := by
  show Nat.ofDigitChars 10 _ 0 = n
  rw [Nat.ofDigitChars_append, Nat.ofDigitChars_replicate_zero, Nat.mul_zero,
    Nat.ofDigitChars_ten_toDigits]

theorem ofDigits_append_replicate (n zeros : Nat) :
    ofDigits (Nat.toDigits 10 n ++ List.replicate zeros '0') = n * .pow 10 zeros := by
  show Nat.ofDigitChars 10 _ 0 = n * 10 ^ zeros
  rw [Nat.ofDigitChars_append, Nat.ofDigitChars_replicate_zero, Nat.ofDigitChars_ten_toDigits,
    Nat.mul_comm]

theorem isDigit_of_mem {n zeros : Nat} {c : Char}
    (h : c ∈ Nat.toDigits 10 n ∨ c ∈ List.replicate zeros '0') : c.isDigit = true := by
  rcases h with h | h
  · exact Nat.isDigit_of_mem_toDigits (by decide) (by decide) h
  · rw [(List.mem_replicate.1 h).2]
    rfl

/-- Zeros behind the digits make a number longer by as many. -/
theorem length_repr_mul_pow {n : Nat} (hn : 0 < n) (zeros : Nat) :
    (Nat.repr (n * .pow 10 zeros)).length = (Nat.repr n).length + zeros := by
  show (Nat.repr (n * 10 ^ zeros)).length = (Nat.repr n).length + zeros
  -- One zero more is one character more: the last digit splits off the others.
  induction zeros with
  | zero => simp
  | succ zeros ih =>
    have hpos : 0 < n * 10 ^ zeros := Nat.mul_pos hn (Nat.pow_pos (by decide))
    have happend := Nat.toDigits_append_toDigits (b := 10) (d := 0) (by decide) hpos (by decide)
    have hsucc : n * 10 ^ (zeros + 1) = 10 * (n * 10 ^ zeros) + 0 := by
      rw [Nat.pow_succ]
      ac_rfl
    rw [hsucc, Nat.repr_eq_ofList_toDigits, ← happend, ← String.length_toList,
      String.toList_ofList, List.length_append, Nat.toDigits_zero, List.length_singleton,
      ← Nat.toList_repr, String.length_toList, ih, Nat.add_assoc]

/-- **Whether zeros are written or counted by the exponent, the same double is nearest.** -/
theorem toRank_mul_pow (n zeros : Nat) (exponent : Int) :
    toRank ⟨n * .pow 10 zeros, exponent⟩ = toRank ⟨n, exponent + zeros⟩ := by
  rcases Nat.eq_zero_or_pos n with rfl | hn
  · rw [Nat.zero_mul, toRank_zero, toRank_zero]
  · have hzero : (n * .pow 10 zeros = 0) = (n = 0) := by
      rw [Nat.mul_eq_zero]
      exact propext (or_iff_left (Nat.ne_of_gt (Nat.pow_pos (by decide))))
    have hsize : exponent + (Nat.repr (n * .pow 10 zeros)).length =
        exponent + zeros + (Nat.repr n).length := by
      -- What decides about overflow is the place of the leading digit, which is the same.
      rw [length_repr_mul_pow hn]
      omega
    have hpow : Nat.pow 10 zeros * tenTo exponent * tenTo (-(exponent + zeros)) =
        tenTo (exponent + zeros) * tenTo (-exponent) := by
      show 10 ^ zeros * 10 ^ exponent.toNat * 10 ^ (-(exponent + zeros)).toNat =
        10 ^ (exponent + zeros).toNat * 10 ^ (-exponent).toNat
      rw [← Nat.pow_add, ← Nat.pow_add, ← Nat.pow_add]
      congr 1
      omega
    have hround : Binary.nearestRank (n * .pow 10 zeros * tenTo exponent) (tenTo (-exponent)) =
        Binary.nearestRank (n * tenTo (exponent + zeros)) (tenTo (-(exponent + zeros))) := by
      refine Binary.nearestRank_congr (tenTo_pos _) (tenTo_pos _) ?_
      rw [Nat.mul_assoc n, Nat.mul_assoc n, hpow, Nat.mul_assoc]
    unfold toRank
    simp only [hsize, hzero, hround]

theorem lt_length_repr {n size : Nat} (hsize : 0 < size) (h : tenTo size ≤ n) :
    size < (Nat.repr n).length := by
  rw [← Nat.not_le, Nat.length_repr_le_iff hsize]
  exact Nat.not_lt.2 h

/-- A whole number of more than four hundred digits is beyond every double. -/
theorem toRank_of_large {n : Nat} (h : tenTo 400 ≤ n) : toRank ⟨n, 0⟩ = Binary.infinityRank := by
  have hlength : 400 < (Nat.repr n).length := lt_length_repr (by decide) h
  have hzero : n ≠ 0 := Nat.ne_of_gt (Nat.lt_of_lt_of_le (tenTo_pos 400) h)
  unfold toRank
  dsimp only
  rw [if_neg (by omega), if_pos (by omega)]

/-- The digits of a decimal with places, filled up with zeros until one digit stands
before the point. -/
def padded (d : Decimal) : List Char :=
  List.replicate ((-d.exponent).toNat + 1 - (Nat.toDigits 10 d.digits).length) '0' ++
    Nat.toDigits 10 d.digits

/-- The digits of a decimal before the point. -/
def wholeDigits (d : Decimal) : List Char :=
  if 0 ≤ d.exponent then Nat.toDigits 10 d.digits ++ List.replicate d.exponent.toNat '0'
  else d.padded.take (d.padded.length - (-d.exponent).toNat)

/-- The digits of a decimal behind the point. -/
def placeDigits (d : Decimal) : List Char :=
  if 0 ≤ d.exponent then [] else d.padded.drop (d.padded.length - (-d.exponent).toNat)

theorem toList_text (d : Decimal) :
    d.text.toList =
      if 0 ≤ d.exponent then d.wholeDigits else d.wholeDigits ++ '.' :: d.placeDigits := by
  unfold text wholeDigits placeDigits padded
  dsimp only
  split
  · next h =>
    rw [if_pos (by omega), if_pos (by omega), String.toList_ofList, Nat.toList_repr]
  · next h =>
    rw [if_neg (by omega), if_neg (by omega), if_neg (by omega), String.toList_ofList,
      Nat.toList_repr]

theorem length_padded (d : Decimal) : (-d.exponent).toNat < d.padded.length := by
  unfold padded
  rw [List.length_append, List.length_replicate]
  omega

/-- The digits before the point and those behind it are digits, and stand for the same
double. -/
theorem isNumeral_digits (d : Decimal) :
    IsNumeral d.text.toList d.wholeDigits d.placeDigits ∧
      toRank ⟨ofDigits (d.wholeDigits ++ d.placeDigits), -d.placeDigits.length⟩ = d.toRank := by
  have hlength := d.length_padded
  rw [toList_text]
  unfold wholeDigits placeDigits
  by_cases h : 0 ≤ d.exponent
  · rw [if_pos h, if_pos h, if_pos h, List.append_nil]
    refine ⟨⟨?_, by simp, .inl ⟨rfl, rfl⟩⟩, ?_⟩
    · intro c hc
      rw [List.append_nil] at hc
      exact isDigit_of_mem (List.mem_append.1 hc)
    · have hplaces : (-([] : List Char).length : Int) + d.exponent.toNat = d.exponent :=
        (Int.zero_add _).trans (Int.toNat_of_nonneg h)
      rw [ofDigits_append_replicate, toRank_mul_pow, hplaces]
  · rw [if_neg h, if_neg h, if_neg h, List.take_append_drop]
    refine ⟨⟨?_, ?_, .inr rfl⟩, ?_⟩
    · intro c hc
      rw [List.take_append_drop] at hc
      exact isDigit_of_mem (List.mem_append.1 hc).symm
    · rw [List.take_append_drop]
      exact List.ne_nil_of_length_pos (by omega)
    · have hplaces : -((d.padded.drop (d.padded.length - (-d.exponent).toNat)).length : Int) =
          d.exponent := by
        rw [List.length_drop]
        omega
      rw [hplaces]
      exact congrArg (fun n => toRank ⟨n, d.exponent⟩) (ofDigits_replicate_append _ d.digits)

/-- **The text of a decimal is a numeral**, and read as a decimal to which the same
double is nearest. -/
theorem isNumeral_text (d : Decimal) : ∃ whole fraction, IsNumeral d.text.toList whole fraction ∧
    toRank ⟨ofDigits (whole ++ fraction), -fraction.length⟩ = d.toRank :=
  ⟨d.wholeDigits, d.placeDigits, isNumeral_digits d⟩

end Stepwise.Decimal

namespace Stepwise.Number

open Decimal (IsNumeral)

/-! ## Numbers -/

theorem magnitude?_of_isNumeral {cs whole fraction : List Char} (negative : Bool)
    (h : IsNumeral cs whole fraction) :
    magnitude? negative cs = some (Binary.ofRank negative
      (Decimal.toRank ⟨Decimal.ofDigits (whole ++ fraction), -fraction.length⟩)) := by
  unfold magnitude?
  rw [Decimal.ofText?_of_isNumeral h]

/-- A numeral starts with no sign. -/
theorem ofText?_of_isNumeral {cs whole fraction : List Char} (h : IsNumeral cs whole fraction) :
    ofText? cs = magnitude? false cs := by
  have hmem := h.forall_mem
  unfold ofText?
  split
  · simp at hmem
  · simp at hmem
  · rfl

/-- Digits beyond the range of doubles are read as infinity. -/
theorem ofText?_of_large {ds : List Char} (hdigits : ∀ c ∈ ds, c.isDigit = true)
    (hlarge : Decimal.tenTo 400 ≤ Decimal.ofDigits ds) :
    ofText? ds = some (Binary.infinity false) := by
  have hnumeral : IsNumeral ds ds [] := by
    refine ⟨by rwa [List.append_nil], ?_, .inl ⟨rfl, rfl⟩⟩
    intro hnil
    rw [List.append_nil] at hnil
    rw [hnil] at hlarge
    exact absurd hlarge (Nat.not_le.2 (Decimal.tenTo_pos 400))
  have hrank := Decimal.toRank_of_large hlarge
  rw [ofText?_of_isNumeral hnumeral, magnitude?_of_isNumeral _ hnumeral, List.append_nil]
  exact congrArg (fun r => some (Binary.ofRank false r)) hrank

theorem isFinite_iff {x : Float} : isFinite x = true ↔ Binary.rank x < Binary.infinityRank :=
  decide_eq_true_iff

/-- The text of a finite number is the text of its shortest decimal behind its sign. -/
theorem text_of_isFinite {x : Float} (h : isFinite x = true) :
    (text x).toList =
      if Binary.isNegative x then '-' :: (Decimal.shortest (Binary.rank x)).text.toList
      else (Decimal.shortest (Binary.rank x)).text.toList := by
  have hrank := isFinite_iff.1 h
  unfold text
  dsimp only
  rw [if_neg (Nat.lt_asymm hrank), if_neg (Nat.ne_of_lt hrank)]
  split
  · rw [String.toList_append]; rfl
  · rfl

/-- **What is printed reads back**: every finite number, the sign of zero included. -/
theorem ofText?_text {x : Float} (h : isFinite x = true) : ofText? (text x).toList = some x := by
  obtain ⟨whole, fraction, hnumeral, hrank⟩ :=
    Decimal.isNumeral_text (Decimal.shortest (Binary.rank x))
  rw [Decimal.toRank_shortest (isFinite_iff.1 h)] at hrank
  have hsign := Binary.ofRank_rank x
  rw [text_of_isFinite h]
  split
  · next hneg =>
    show magnitude? true _ = _
    rw [magnitude?_of_isNumeral _ hnumeral, hrank]
    rw [hneg] at hsign
    rw [hsign]
  · next hneg =>
    rw [ofText?_of_isNumeral hnumeral, magnitude?_of_isNumeral _ hnumeral, hrank]
    rw [Bool.not_eq_true] at hneg
    rw [hneg] at hsign
    rw [hsign]

/-- The text of a finite number has digits, a point and a sign only. -/
theorem forall_mem_text {x : Float} (h : isFinite x = true) :
    ∀ c ∈ (text x).toList, c.isDigit = true ∨ c = '.' ∨ c = '-' := by
  obtain ⟨whole, fraction, hnumeral, -⟩ := Decimal.isNumeral_text (Decimal.shortest (Binary.rank x))
  have hmem := hnumeral.forall_mem
  rw [text_of_isFinite h]
  intro c hc
  split at hc
  · rcases List.mem_cons.1 hc with rfl | hc
    · exact .inr (.inr rfl)
    · exact (hmem c hc).imp_right .inl
  · exact (hmem c hc).imp_right .inl

/-- The texts of what is not finite. -/
theorem text_of_not_isFinite {x : Float} (h : isFinite x = false) :
    text x = "NaN" ∨ text x = "inf" ∨ text x = "-inf" := by
  have hrank : ¬ Binary.rank x < Binary.infinityRank := by
    rw [← isFinite_iff, h]
    decide
  unfold text
  dsimp only
  split
  · exact .inl rfl
  · next hle =>
    rw [if_pos (Nat.le_antisymm (Nat.not_lt.1 hle) (Nat.not_lt.1 hrank))]
    split
    · exact .inr (.inr rfl)
    · exact .inr (.inl rfl)

end Stepwise.Number
