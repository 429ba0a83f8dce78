import Stepwise.Json.Printer
import Stepwise.Json.Reader
import Stepwise.Proofs.Number.Exact
import Stepwise.Proofs.Number.Numeral

/-!
# Numerals of JSON

A numeral of JSON is a whole part without leading zeros, and behind it places, an
exponent, both or neither. It ends where something stands that belongs to no numeral,
and what can stand behind a value is of that kind (`IsTail`):

> `finiteNumeral_numberText`: the text of a finite number is read as the same number.

Wherever the point is put, zeros before the digits and behind them do not count, so
every numeral of the digits of a decimal has the same nearest double
(`toRank_ofDigits`).
-/

namespace Stepwise

/-! ## Whole parts -/

namespace Decimal

/-- A whole part as JSON has it: digits, and no zero in front of others. -/
structure IsWhole (ds : List Char) : Prop where
  digits : ∀ c ∈ ds, c.isDigit = true
  nonempty : ds ≠ []
  noLeadingZero : ds.head? = some '0' → ds.length = 1

/-- A number that is not zero is not written with a zero in front. -/
theorem head?_toDigits {n : Nat} (h : n ≠ 0) : (Nat.toDigits 10 n).head? ≠ some '0' := by
  induction n using Nat.strongRecOn with
  | ind n ih =>
    by_cases hlt : n < 10
    · rw [Nat.toDigits_of_lt_base hlt, List.head?_cons]
      exact fun hzero => h (Nat.digitChar_eq_zero.1 (Option.some.inj hzero))
    · have hsplit := Nat.toDigits_of_base_le (b := 10) (by decide) (Nat.not_lt.1 hlt)
      rw [hsplit, List.head?_append, Option.or_of_isSome]
      · exact ih (n / 10) (by omega) (by omega)
      · exact List.isSome_head?.2 Nat.toDigits_ne_nil

theorem isWhole_toDigits (n : Nat) : IsWhole (Nat.toDigits 10 n) where
  digits _ h := Nat.isDigit_of_mem_toDigits (by decide) (by decide) h
  nonempty := Nat.toDigits_ne_nil
  noLeadingZero h := by
    by_cases hn : n = 0
    · rw [hn]
      rfl
    · exact absurd h (head?_toDigits hn)

end Decimal

/-! ## Whole numbers in the range of doubles -/

namespace Number

/-- A whole number of at most ten digits is in the range of doubles. -/
theorem isFinite_ofInt {n : Int} (h : n.natAbs < .pow 10 10) : isFinite (ofInt n) = true := by
  have hlength : (Nat.repr n.natAbs).length ≤ 10 := (Nat.length_repr_le_iff (by decide)).2 h
  have hrank : Decimal.toRank ⟨n.natAbs, 0⟩ < Binary.infinityRank := by
    unfold Decimal.toRank
    dsimp only
    split
    · decide
    · rw [if_neg (by omega)]
      have hone : Decimal.tenTo 0 = 1 := rfl
      -- A name for the power keeps it from being computed.
      obtain ⟨s, hs, hpow⟩ : ∃ s, s = 1074 ∧ Binary.unitsPerOne = .pow 2 s :=
        ⟨1074, rfl, by decide +kernel⟩
      have hunits : n.natAbs * Decimal.tenTo 0 * Binary.unitsPerOne / Decimal.tenTo (-0) <
          .pow 2 53 * .pow 2 s := by
        rw [Int.neg_zero, hone, Nat.div_one, Nat.mul_one, hpow]
        exact Nat.mul_lt_mul_of_pos_right (Nat.lt_trans h (by decide)) (Nat.two_pow_pos s)
      refine Nat.lt_of_le_of_lt (Binary.nearestRank_le hunits) ?_
      rw [hs]
      decide
  unfold ofInt
  rw [isFinite_iff, Binary.rank_ofRank hrank]
  exact hrank

end Number

namespace Json

open Decimal (IsWhole)

/-- What may stand behind a value: nothing, a comma or a closing bracket. -/
def IsTail (cs : List Char) : Prop := ∀ c ∈ cs.head?, c = ',' ∨ c = ']' ∨ c = '\x7d'

theorem isTail_cons {c : Char} (cs : List Char) (h : c = ',' ∨ c = ']' ∨ c = '\x7d') :
    IsTail (c :: cs) := by
  intro d hd
  cases hd
  exact h

/-- The minus of a numeral. -/
def minus (negative : Bool) : List Char := if negative then ['-'] else []

theorem toList_repr_int (n : Int) :
    n.repr.toList = minus (decide (n < 0)) ++ Nat.toDigits 10 n.natAbs := by
  cases n with
  | ofNat m =>
    have hpos : ¬ Int.ofNat m < 0 := Int.not_lt.2 (Int.natCast_nonneg m)
    rw [decide_eq_false hpos]
    exact Nat.toList_repr
  | negSucc m =>
    rw [decide_eq_true (Int.negSucc_lt_zero m)]
    show String.toList ("-" ++ Nat.repr (m + 1)) = _
    rw [String.toList_append, Nat.toList_repr]
    rfl

/-- What starts with a digit starts with no sign. -/
theorem exists_cons_toDigits (n : Nat) (rest : List Char) :
    ∃ c cs, Nat.toDigits 10 n ++ rest = c :: cs ∧ c ≠ '-' ∧ c ≠ '+' := by
  obtain ⟨c, cs, hcs⟩ := List.exists_cons_of_ne_nil (Nat.toDigits_ne_nil (b := 10) (n := n))
  have hc : c.isDigit = true := by
    refine Nat.isDigit_of_mem_toDigits (b := 10) (n := n) (by decide) (by decide) ?_
    rw [hcs]
    exact List.mem_cons_self
  refine ⟨c, cs ++ rest, by rw [hcs]; rfl, ?_, ?_⟩
  all_goals
    rintro rfl
    cases hc

/-- A run of digits is read up to the first other character. -/
theorem digits?_run {ds rest : List Char} (hdigits : ∀ c ∈ ds, c.isDigit = true) (hne : ds ≠ [])
    (hrest : ∀ c ∈ rest.head?, c.isDigit = false) : digits? (ds ++ rest) = some (ds, rest) := by
  obtain ⟨htake, hdrop⟩ := Text.takeWhile_run rest hdigits hrest
  unfold digits?
  dsimp only
  rw [htake, hdrop, if_neg (by simpa using hne)]

theorem whole?_run {ds rest : List Char} (h : IsWhole ds)
    (hrest : ∀ c ∈ rest.head?, c.isDigit = false) : whole? (ds ++ rest) = some (ds, rest) := by
  unfold whole?
  rw [digits?_run h.digits h.nonempty hrest]
  show (if _ then _ else _ : Option _) = _
  rw [if_neg fun ⟨hzero, hlength⟩ => hlength (h.noLeadingZero hzero)]
  rfl

namespace Numeral

/-! ## Exponents -/

/-- Behind a whole part and its places stands an exponent or what ends the numeral. -/
theorem head?_exponent (power : Int) {rest : List Char} (hrest : IsTail rest) :
    ∀ c ∈ (exponent power ++ rest).head?, c.isDigit = false ∧ c ≠ '.' := by
  unfold exponent
  split
  · intro c hc
    rcases hrest c hc with rfl | rfl | rfl
    all_goals exact ⟨rfl, by decide⟩
  · intro c hc
    cases hc
    exact ⟨rfl, by decide⟩

/-- An exponent is read as itself. -/
theorem exponent?_exponent (power : Int) : Decimal.exponent? (exponent power) = some power := by
  have hdigits : (Nat.toDigits 10 power.natAbs).all Char.isDigit = true :=
    List.all_eq_true.2 (Decimal.isWhole_toDigits power.natAbs).digits
  have hvalue : Decimal.ofDigits (Nat.toDigits 10 power.natAbs) = power.natAbs :=
    Nat.ofDigitChars_ten_toDigits
  have hempty : ¬ ((Nat.toDigits 10 power.natAbs).isEmpty = true ∨
      ¬ (Nat.toDigits 10 power.natAbs).all Char.isDigit = true) := by
    rw [hdigits]
    simp
  unfold exponent
  split
  · next hzero =>
    rw [hzero]
    rfl
  · rw [toList_repr_int]
    by_cases hneg : power < 0
    · rw [decide_eq_true hneg]
      show (if (Nat.toDigits 10 power.natAbs).isEmpty = true ∨
          ¬ (Nat.toDigits 10 power.natAbs).all Char.isDigit = true then none
        else some (-(Decimal.ofDigits (Nat.toDigits 10 power.natAbs) : Int))) = _
      rw [if_neg hempty, hvalue]
      exact congrArg some (by omega)
    · obtain ⟨c, cs, hcs, hminus, hplus⟩ := exists_cons_toDigits power.natAbs []
      rw [List.append_nil] at hcs
      rw [decide_eq_false hneg]
      show Decimal.exponent? ('e' :: Nat.toDigits 10 power.natAbs) = _
      rw [hcs] at hempty hvalue ⊢
      unfold Decimal.exponent?
      dsimp only
      rw [if_pos (.inl rfl)]
      split
      · next hcons => exact absurd (List.cons.inj hcons).1 hminus
      · next hcons => exact absurd (List.cons.inj hcons).1 hplus
      · rw [if_neg hempty, hvalue]
        exact congrArg some (by simp only [Bool.false_eq_true, if_false]; omega)

/-- An exponent is read up to what ends the numeral. -/
theorem power?_exponent (power : Int) {rest : List Char} (hrest : IsTail rest) :
    power? (exponent power ++ rest) = some (exponent power, rest) := by
  have htail : ∀ c ∈ rest.head?, c.isDigit = false := by
    intro c hc
    rcases hrest c hc with rfl | rfl | rfl
    all_goals rfl
  have hread : digits? (Nat.toDigits 10 power.natAbs ++ rest) =
      some (Nat.toDigits 10 power.natAbs, rest) :=
    digits?_run (Decimal.isWhole_toDigits power.natAbs).digits Nat.toDigits_ne_nil htail
  unfold exponent
  split
  · cases rest with
    | nil => rfl
    | cons c rest =>
      rcases hrest c rfl with rfl | rfl | rfl
      all_goals rfl
  · rw [toList_repr_int]
    by_cases hneg : power < 0
    · rw [decide_eq_true hneg]
      show (digits? (Nat.toDigits 10 power.natAbs ++ rest)).map _ = _
      rw [hread]
      rfl
    · obtain ⟨c, cs, hcs, hminus, hplus⟩ := exists_cons_toDigits power.natAbs rest
      rw [decide_eq_false hneg]
      show power? ('e' :: (Nat.toDigits 10 power.natAbs ++ rest)) =
        some ('e' :: Nat.toDigits 10 power.natAbs, rest)
      rw [hcs] at hread ⊢
      unfold power?
      dsimp only
      rw [if_pos (.inl rfl)]
      split
      · next hcons => exact absurd (List.cons.inj hcons).1 hminus
      · next hcons => exact absurd (List.cons.inj hcons).1 hplus
      · dsimp only
        rw [hread]
        rfl

/-! ## Reading a numeral -/

/-- A numeral whose whole part and places are such as JSON has them. -/
structure IsJson (n : Numeral) : Prop where
  whole : IsWhole n.whole
  places : ∀ c ∈ n.places, c.isDigit = true

/-- The double nearest to a numeral, with its sign. -/
def value (negative : Bool) (n : Numeral) : Float :=
  Binary.ofRank negative
    (Decimal.toRank ⟨Decimal.ofDigits (n.whole ++ n.places), n.power - n.places.length⟩)

/-- A numeral as it is read: a whole number if it has neither places nor an exponent,
and is no negative zero. -/
def json (negative : Bool) (n : Numeral) : Json :=
  if n.places.isEmpty ∧ n.power = 0 ∧ (!negative ∨ n.whole ≠ ['0']) then
    .integer (if !negative then (Decimal.ofDigits n.whole : Int) else -Decimal.ofDigits n.whole)
  else .number (n.value negative)

variable {n : Numeral}

/-- Behind a whole part stands no digit. -/
theorem head?_point (n : Numeral) {rest : List Char} (hrest : IsTail rest) :
    ∀ c ∈ (point n.places ++ (exponent n.power ++ rest)).head?, c.isDigit = false := by
  unfold point
  split
  · exact fun c hc => (head?_exponent n.power hrest c hc).1
  · intro c hc
    cases hc
    rfl

theorem fraction?_point (h : n.IsJson) {rest : List Char} (hrest : IsTail rest) :
    fraction? (point n.places ++ (exponent n.power ++ rest)) =
      some (point n.places, exponent n.power ++ rest) := by
  have hbehind := head?_exponent n.power hrest
  unfold point
  split
  · show fraction? (exponent n.power ++ rest) = some ([], exponent n.power ++ rest)
    unfold fraction?
    split
    · next cs heq =>
      rw [heq] at hbehind
      exact absurd rfl (hbehind '.' rfl).2
    · rfl
  · next hne =>
    show (digits? (n.places ++ (exponent n.power ++ rest))).map _ = _
    rw [digits?_run h.places (by simpa using hne) fun c hc => (hbehind c hc).1]
    rfl

/-- The characters of a numeral are read as a decimal. -/
theorem ofText?_chars (h : n.IsJson) : Decimal.ofText? n.chars =
    some ⟨Decimal.ofDigits (n.whole ++ n.places), n.power - n.places.length⟩ := by
  have htail : IsTail [] := nofun
  have hpoint := head?_point n htail
  have hexponent := head?_exponent n.power htail
  rw [List.append_nil] at hpoint hexponent
  obtain ⟨htake, hdrop⟩ := Text.takeWhile_run _ h.whole.digits hpoint
  have hwhole : ¬ n.whole.isEmpty = true := by simpa using h.whole.nonempty
  unfold chars Decimal.ofText?
  rw [List.append_assoc]
  dsimp only
  rw [htake, hdrop]
  unfold point
  by_cases hplaces : n.places.isEmpty = true
  · rw [if_pos hplaces, List.nil_append, List.isEmpty_iff.1 hplaces]
    split
    · next cs hcs =>
      rw [hcs] at hexponent
      exact absurd rfl (hexponent '.' rfl).2
    · rw [if_neg fun hnone => hwhole hnone.1, exponent?_exponent, List.append_nil]
      rfl
  · obtain ⟨htake', hdrop'⟩ :=
      Text.takeWhile_run (exponent n.power) h.places fun c hc => (hexponent c hc).1
    rw [if_neg hplaces, List.cons_append]
    split
    · next cs hcs =>
      cases hcs
      rw [htake', hdrop', if_neg fun hnone => hwhole hnone.1, exponent?_exponent]
      rfl
    · next hnone => exact absurd rfl (hnone (n.places ++ exponent n.power))

/-- A sign and a numeral are the text of a number. -/
theorem ofText?_minus (negative : Bool) (h : n.IsJson) :
    Number.ofText? (minus negative ++ n.chars) = some (n.value negative) := by
  have hmagnitude : Number.magnitude? negative n.chars = some (n.value negative) := by
    unfold Number.magnitude?
    rw [ofText?_chars h]
    rfl
  cases negative with
  | true => exact hmagnitude
  | false =>
    obtain ⟨c, cs, hcs⟩ := List.exists_cons_of_ne_nil h.whole.nonempty
    have hc : c.isDigit = true := h.whole.digits c (hcs ▸ List.mem_cons_self)
    show Number.ofText? n.chars = _
    rw [← hmagnitude]
    unfold chars Number.ofText?
    rw [hcs]
    split
    · next heq =>
      cases (List.cons.inj heq).1
      cases hc
    · next heq =>
      cases (List.cons.inj heq).1
      cases hc
    · rfl

end Numeral

/-- Read a numeral behind its sign. -/
def unsigned? (sign cs : List Char) : Option (Json × List Char) := do
  let (whole, rest) ← whole? cs
  let (fraction, rest) ← fraction? rest
  let (power, rest) ← power? rest
  if fraction.isEmpty ∧ power.isEmpty ∧ (sign.isEmpty ∨ whole ≠ ['0']) then
    let n : Int := Decimal.ofDigits whole
    return (.integer (if sign.isEmpty then n else -n), rest)
  else
    let x ← Number.ofText? (sign ++ whole ++ fraction ++ power)
    return (.number x, rest)

/-- A whole part starts with no sign. -/
theorem numeral?_minus (negative : Bool) {ds : List Char} (h : IsWhole ds) (rest : List Char) :
    numeral? (minus negative ++ (ds ++ rest)) = unsigned? (minus negative) (ds ++ rest) := by
  cases negative with
  | true => rfl
  | false =>
    obtain ⟨c, ds, rfl⟩ := List.exists_cons_of_ne_nil h.nonempty
    have hc := h.digits c List.mem_cons_self
    show numeral? (c :: (ds ++ rest)) = unsigned? [] (c :: (ds ++ rest))
    unfold numeral?
    split
    next heq =>
      split at heq
      · next hminus =>
        cases hminus
        cases hc
      · cases heq
        rfl

/-- **A numeral is read up to what stands behind it.** -/
theorem numeral?_chars (negative : Bool) {n : Numeral} (h : n.IsJson) {rest : List Char}
    (hrest : IsTail rest) :
    numeral? (minus negative ++ (n.chars ++ rest)) = some (n.json negative, rest) := by
  have hsplit : n.chars ++ rest =
      n.whole ++ (Numeral.point n.places ++ (Numeral.exponent n.power ++ rest)) := by
    unfold Numeral.chars
    simp only [List.append_assoc]
  have hplaces : (Numeral.point n.places).isEmpty = n.places.isEmpty := by
    cases n.places with
    | nil => rfl
    | cons c places => rfl
  have hpower : (Numeral.exponent n.power).isEmpty = true ↔ n.power = 0 := by
    unfold Numeral.exponent
    split <;> simp [*]
  have hsign : (minus negative).isEmpty = !negative := by cases negative <;> rfl
  have htext : Number.ofText? (minus negative ++ n.whole ++ Numeral.point n.places ++
      Numeral.exponent n.power) = some (n.value negative) := by
    rw [← Numeral.ofText?_minus negative h]
    unfold Numeral.chars
    simp only [List.append_assoc]
  rw [hsplit, numeral?_minus negative h.whole]
  unfold unsigned?
  rw [whole?_run h.whole (n.head?_point hrest)]
  show (fraction? (Numeral.point n.places ++ (Numeral.exponent n.power ++ rest))).bind _ = _
  rw [Numeral.fraction?_point h hrest]
  show (power? (Numeral.exponent n.power ++ rest)).bind _ = _
  rw [Numeral.power?_exponent n.power hrest]
  show (if (Numeral.point n.places).isEmpty ∧ (Numeral.exponent n.power).isEmpty ∧
      ((minus negative).isEmpty ∨ n.whole ≠ ['0']) then
      some (integer (if (minus negative).isEmpty then _ else _), rest)
    else (Number.ofText? (minus negative ++ n.whole ++ Numeral.point n.places ++
      Numeral.exponent n.power)).bind fun x => some (number x, rest)) = _
  rw [htext, hplaces, hsign]
  unfold Numeral.json
  simp only [hpower]
  split
  · rfl
  · rfl

/-! ## Whole numbers -/

theorem json_toDigits (n : Int) :
    Numeral.json (decide (n < 0)) ⟨Nat.toDigits 10 n.natAbs, [], 0⟩ = .integer n := by
  have hvalue : Decimal.ofDigits (Nat.toDigits 10 n.natAbs) = n.natAbs :=
    Nat.ofDigitChars_ten_toDigits
  unfold Numeral.json
  dsimp only
  rw [hvalue]
  by_cases hneg : n < 0
  · have hne : Nat.toDigits 10 n.natAbs ≠ ['0'] := by
      intro hzero
      have hnat : n.natAbs = 0 := hvalue.symm.trans (congrArg Decimal.ofDigits hzero)
      omega
    rw [decide_eq_true hneg, if_pos ⟨rfl, rfl, .inr hne⟩]
    exact congrArg integer (by show -(n.natAbs : Int) = n; omega)
  · rw [decide_eq_false hneg, if_pos ⟨rfl, rfl, .inl rfl⟩]
    exact congrArg integer (by show (n.natAbs : Int) = n; omega)

/-- A whole number is read back if it is in the range of doubles. -/
theorem finiteNumeral_repr (ignored : Bool) {n : Int}
    (hn : Number.isFinite (Number.ofInt n) = true) {rest : List Char} (hrest : IsTail rest) :
    finiteNumeral ignored (n.repr.toList ++ rest) = .ok (.integer n, rest) := by
  have hjson : Numeral.IsJson ⟨Nat.toDigits 10 n.natAbs, [], 0⟩ :=
    ⟨Decimal.isWhole_toDigits n.natAbs, List.forall_mem_nil _⟩
  have hchars : Numeral.chars ⟨Nat.toDigits 10 n.natAbs, [], 0⟩ = Nat.toDigits 10 n.natAbs := by
    show Nat.toDigits 10 n.natAbs ++ [] ++ [] = _
    rw [List.append_nil, List.append_nil]
  have hread := numeral?_chars (decide (n < 0)) hjson hrest
  rw [hchars, json_toDigits] at hread
  unfold finiteNumeral
  rw [toList_repr_int, List.append_assoc, hread]
  exact if_pos (.inr hn)

/-! ## The digits of a decimal -/

/-- Digits that a numeral can be made of: none of them is a zero in front of the others,
and if there are none the point stands behind a zero. -/
structure AreSignificant (ds : List Char) (place : Int) : Prop where
  digits : ∀ c ∈ ds, c.isDigit = true
  noLeadingZero : ds.head? ≠ some '0'
  nonempty : ds = [] → place = 1

/-- The digits of a decimal are the significant ones and zeros behind them. -/
theorem exists_toDigits_eq (d : Decimal) : ∃ zeros, Nat.toDigits 10 d.digits =
    significantDigits d ++ List.replicate zeros '0' := by
  refine ⟨((Nat.toDigits 10 d.digits).reverse.takeWhile (· == '0')).length, ?_⟩
  have hzeros : (Nat.toDigits 10 d.digits).reverse.takeWhile (· == '0') =
      List.replicate ((Nat.toDigits 10 d.digits).reverse.takeWhile (· == '0')).length '0' := by
    refine List.eq_replicate_of_mem fun c hc => ?_
    exact beq_iff_eq.1 (List.all_eq_true.1 List.all_takeWhile c hc)
  unfold significantDigits
  rw [← List.reverse_replicate, ← hzeros, ← List.reverse_append, List.takeWhile_append_dropWhile,
    List.reverse_reverse]

theorem areSignificant {d : Decimal} (h : d.digits = 0 → d.exponent = 0) :
    AreSignificant (significantDigits d) (pointPlace d) := by
  obtain ⟨zeros, hdigits⟩ := exists_toDigits_eq d
  have hmem : ∀ c ∈ significantDigits d, c ∈ Nat.toDigits 10 d.digits :=
    fun c hc => hdigits ▸ List.mem_append_left _ hc
  refine ⟨fun c hc => (Decimal.isWhole_toDigits d.digits).digits c (hmem c hc), ?_, ?_⟩
  · intro hhead
    by_cases hzero : d.digits = 0
    · -- Of a zero alone nothing is left.
      unfold significantDigits at hhead
      rw [hzero] at hhead
      cases hhead
    · refine Decimal.head?_toDigits hzero ?_
      rw [hdigits, List.head?_append, hhead]
      rfl
  · intro hnil
    have hzero : d.digits = 0 := by
      refine Decidable.byContradiction fun hne => Decimal.head?_toDigits hne ?_
      have hlength := congrArg List.length hdigits
      rw [hnil, List.nil_append, List.length_replicate] at hlength
      rw [hdigits, hnil, List.nil_append, List.head?_replicate, if_neg]
      rw [← hlength]
      exact Nat.ne_of_gt (List.length_pos_iff.2 Nat.toDigits_ne_nil)
    unfold pointPlace
    rw [hzero, h hzero]
    rfl

/-- Zeros that end the digits are counted by the place of the point. -/
theorem toRank_significantDigits (d : Decimal) :
    Decimal.toRank ⟨Decimal.ofDigits (significantDigits d),
      pointPlace d - (significantDigits d).length⟩ = d.toRank := by
  obtain ⟨zeros, hdigits⟩ := exists_toDigits_eq d
  have hvalue : d.digits = Decimal.ofDigits (significantDigits d) * .pow 10 zeros := by
    have hten : Decimal.ofDigits (Nat.toDigits 10 d.digits) = d.digits :=
      Nat.ofDigitChars_ten_toDigits
    rw [← hten, hdigits]
    show Nat.ofDigitChars 10 _ 0 = Nat.ofDigitChars 10 _ 0 * 10 ^ zeros
    rw [Nat.ofDigitChars_append, Nat.ofDigitChars_replicate_zero, Nat.mul_comm]
  have hplace : pointPlace d - (significantDigits d).length = d.exponent + zeros := by
    unfold pointPlace
    rw [hdigits, List.length_append, List.length_replicate]
    omega
  rw [hplace, ← Decimal.toRank_mul_pow, ← hvalue]

/-! ## The numeral of digits -/

namespace Numeral

variable {ds : List Char} {place : Int}

/-- The numeral of digits is one of JSON, and no whole number. -/
theorem isJson_ofDigits (h : AreSignificant ds place) :
    (ofDigits ds place).IsJson ∧
      ¬ ((ofDigits ds place).places.isEmpty = true ∧ (ofDigits ds place).power = 0) := by
  have hone : IsWhole ['0'] := Decimal.isWhole_toDigits 0
  have hwhole {cs : List Char} (hdigits : ∀ c ∈ cs, c.isDigit = true)
      (hhead : cs.head? = ds.head?) (hne : cs ≠ []) : IsWhole cs :=
    ⟨hdigits, hne, fun hzero => absurd (hhead ▸ hzero) h.noLeadingZero⟩
  have hzeros {zeros : Nat} : ∀ c ∈ List.replicate zeros '0', c.isDigit = true := by
    intro c hc
    rw [(List.mem_replicate.1 hc).2]
    rfl
  have htake (k : Nat) : ∀ c ∈ ds.take k, c.isDigit = true :=
    fun c hc => h.digits c (List.mem_of_mem_take hc)
  have hdrop (k : Nat) : ∀ c ∈ ds.drop k, c.isDigit = true :=
    fun c hc => h.digits c (List.mem_of_mem_drop hc)
  unfold ofDigits
  split
  · refine ⟨⟨?_, List.forall_mem_singleton.2 rfl⟩, fun hnone => Bool.false_ne_true hnone.1⟩
    by_cases hnil : ds = []
    · rw [hnil, h.nonempty hnil]
      exact hone
    · refine hwhole ?_ ?_ (List.append_ne_nil_of_left_ne_nil hnil _)
      · exact List.forall_mem_append.2 ⟨h.digits, hzeros⟩
      · rw [List.head?_append, Option.or_of_isSome (List.isSome_head?.2 hnil)]
  · next hlong =>
    split
    · next hplace =>
      have hlt : place.toNat < ds.length := by omega
      refine ⟨⟨hwhole (htake _) ?_ ?_, hdrop _⟩, fun hnone => ?_⟩
      · rw [List.head?_take, if_neg (by omega)]
      · exact List.ne_nil_of_length_pos (by rw [List.length_take]; omega)
      · have hlength := List.isEmpty_iff_length_eq_zero.1 hnone.1
        rw [List.length_drop] at hlength
        omega
    · next hfar =>
      have hpos : 0 < ds.length := by
        refine List.length_pos_iff.2 fun hnil => ?_
        have hplace := h.nonempty hnil
        rw [hnil] at hlong
        exact hlong ⟨by rw [hplace]; decide, by rw [hplace]; decide⟩
      split
      · refine ⟨⟨hone, List.forall_mem_append.2 ⟨hzeros, h.digits⟩⟩, fun hnone => ?_⟩
        have hlength := List.isEmpty_iff_length_eq_zero.1 hnone.1
        rw [List.length_append] at hlength
        omega
      · next hsmall =>
        refine ⟨⟨hwhole (htake 1) ?_ ?_, hdrop 1⟩, fun hnone => ?_⟩
        · rw [List.head?_take, if_neg (by decide)]
        · exact List.ne_nil_of_length_pos (by rw [List.length_take]; omega)
        · have hpower : place - 1 = 0 := hnone.2
          unfold maxWhole at hlong hfar
          omega

/-- **Wherever the point is put, the same double is nearest.** -/
theorem toRank_ofDigits (ds : List Char) (place : Int) :
    Decimal.toRank ⟨Decimal.ofDigits ((ofDigits ds place).whole ++ (ofDigits ds place).places),
      (ofDigits ds place).power - (ofDigits ds place).places.length⟩ =
    Decimal.toRank ⟨Decimal.ofDigits ds, place - ds.length⟩ := by
  have hbehind (zeros : Nat) : Decimal.ofDigits (ds ++ List.replicate zeros '0') =
      Decimal.ofDigits ds * .pow 10 zeros := by
    show Nat.ofDigitChars 10 _ 0 = Nat.ofDigitChars 10 _ 0 * 10 ^ zeros
    rw [Nat.ofDigitChars_append, Nat.ofDigitChars_replicate_zero, Nat.mul_comm]
  have hbefore (zeros : Nat) : Decimal.ofDigits (List.replicate zeros '0' ++ ds) =
      Decimal.ofDigits ds := by
    show Nat.ofDigitChars 10 _ 0 = Nat.ofDigitChars 10 _ 0
    rw [Nat.ofDigitChars_append, Nat.ofDigitChars_replicate_zero, Nat.mul_zero]
  unfold ofDigits
  split
  · next hlong =>
    have hzeros : ds ++ List.replicate (place - ds.length).toNat '0' ++ ['0'] =
        ds ++ List.replicate ((place - ds.length).toNat + 1) '0' := by
      rw [List.append_assoc, List.replicate_succ']
    have hexponent : (0 : Int) - ['0'].length + ((place - ds.length).toNat + 1 : Nat) =
        place - ds.length := by
      rw [List.length_singleton]
      omega
    dsimp only
    rw [hzeros, hbehind, Decimal.toRank_mul_pow, hexponent]
  · next hlong =>
    split
    · next hplace =>
      dsimp only
      rw [List.take_append_drop, List.length_drop]
      exact congrArg (fun e => Decimal.toRank ⟨_, e⟩) (by omega)
    · split
      · next hsmall =>
        have hzero : ['0'] ++ (List.replicate (-place).toNat '0' ++ ds) =
            List.replicate ((-place).toNat + 1) '0' ++ ds := rfl
        dsimp only
        rw [hzero, hbefore, List.length_append, List.length_replicate]
        exact congrArg (fun e => Decimal.toRank ⟨_, e⟩) (by omega)
      · dsimp only
        rw [List.take_append_drop, List.length_drop]
        by_cases hnil : ds = []
        · rw [hnil]
          exact (Decimal.toRank_zero _).trans (Decimal.toRank_zero _).symm
        · have hpos := List.length_pos_iff.2 hnil
          exact congrArg (fun e => Decimal.toRank ⟨_, e⟩) (by omega)

end Numeral

/-! ## The texts of numbers -/

/-- Either of two decimals that are equally near reads back. -/
theorem toRank_evenOnTie {r : Nat} {d : Decimal} (h : d.toRank = r) :
    (evenOnTie r d).toRank = r := by
  unfold evenOnTie
  dsimp only
  split
  · next htie => exact htie.2.2
  · exact h

/-- Only zero is written with the digit zero alone. -/
theorem areSignificant_shortest {r : Nat} (hr : r < Binary.infinityRank) :
    AreSignificant (significantDigits (evenOnTie r (Decimal.shortest r)))
      (pointPlace (evenOnTie r (Decimal.shortest r))) := by
  refine areSignificant fun hzero => ?_
  have hrank := toRank_evenOnTie (Decimal.toRank_shortest hr)
  have hnull : Decimal.toRank ⟨(evenOnTie r (Decimal.shortest r)).digits,
      (evenOnTie r (Decimal.shortest r)).exponent⟩ = r := hrank
  rw [hzero, Decimal.toRank_zero] at hnull
  rw [← hnull]
  rfl

theorem isJson_numeral {r : Nat} (hr : r < Binary.infinityRank) :
    (numeral r).IsJson ∧ ¬ ((numeral r).places.isEmpty = true ∧ (numeral r).power = 0) :=
  Numeral.isJson_ofDigits (areSignificant_shortest hr)

/-- The numeral of a finite number has the number as its value. -/
theorem value_numeral {x : Float} (hx : Number.isFinite x = true) :
    (numeral (Binary.rank x)).value (Binary.isNegative x) = x := by
  unfold numeral Numeral.value
  dsimp only
  rw [Numeral.toRank_ofDigits, toRank_significantDigits,
    toRank_evenOnTie (Decimal.toRank_shortest (Number.isFinite_iff.1 hx)), Binary.ofRank_rank]

theorem toList_numberText (x : Float) :
    (numberText x).toList = minus (Binary.isNegative x) ++ (numeral (Binary.rank x)).chars := by
  unfold numberText minus
  rw [String.toList_ofList]

/-- **The text of a finite number is read back**, up to what stands behind it. -/
theorem finiteNumeral_numberText (ignored : Bool) {x : Float} (hx : Number.isFinite x = true)
    {rest : List Char} (hrest : IsTail rest) :
    finiteNumeral ignored ((numberText x).toList ++ rest) = .ok (.number x, rest) := by
  obtain ⟨hjson, hpoint⟩ := isJson_numeral (Number.isFinite_iff.1 hx)
  have hnumber : (numeral (Binary.rank x)).json (Binary.isNegative x) = .number x := by
    unfold Numeral.json
    rw [if_neg fun h => hpoint ⟨h.1, h.2.1⟩, value_numeral hx]
  have hread := numeral?_chars (Binary.isNegative x) hjson hrest
  rw [hnumber] at hread
  unfold finiteNumeral
  rw [toList_numberText, List.append_assoc, hread]
  exact if_pos (.inr hx)

/-- A whole value keeps its point, a large one has an exponent, and so has a small one. -/
example : [3.0, -0.0, 1e21, 1.5e-7].map numberText = ["3.0", "-0.0", "1e21", "1.5e-7"] := by
  decide +kernel

end Json

end Stepwise
