import Stepwise.Proofs.Number.ReadBack

/-!
# The numerals that read

The reader of numbers admits more than the numbers of a line are made of: signs,
exponents and words. Of the texts over digits, points and minus signs it accepts
exactly the numerals, digits with at most one point behind an optional minus:

> `ofText?_eq_some_iff`: such a text reads as a number exactly if it is written as a
> numeral of that number.
-/

namespace Stepwise

/-- A digit, a point or a minus sign. -/
def IsNumeric (c : Char) : Prop := c.isDigit = true ∨ c = '.' ∨ c = '-'

instance (c : Char) : Decidable (IsNumeric c) :=
  inferInstanceAs (Decidable (c.isDigit = true ∨ c = '.' ∨ c = '-'))

theorem IsNumeric.ne {c d : Char} (h : IsNumeric c) (hd : ¬ IsNumeric d) : c ≠ d :=
  fun heq => hd (heq ▸ h)

theorem toNat_of_isNumeric {c : Char} (h : IsNumeric c) : c.toNat ≤ 57 := by
  rcases h with h | rfl | rfl
  · have hrange : (decide (48 ≤ c.toNat) && decide (c.toNat ≤ 57)) = true := h
    rw [Bool.and_eq_true] at hrange
    exact of_decide_eq_true hrange.2
  · decide
  · decide

/-- What comes before the capital letters is in lower case. -/
theorem toLower_of_toNat_lt {c : Char} (h : c.toNat < 65) : c.toLower = c := by
  unfold Char.toLower
  rw [dif_neg]
  rintro ⟨hcapital, -⟩
  have hlow : 65 ≤ c.toNat := hcapital
  omega

namespace Decimal

/-- Nothing over digits, points and minus signs is an exponent, which starts with a letter. -/
theorem exponent?_eq_some {cs : List Char} {e : Int} (hcs : ∀ c ∈ cs, IsNumeric c)
    (h : exponent? cs = some e) : cs = [] ∧ e = 0 := by
  cases cs with
  | nil =>
    cases h
    exact ⟨rfl, rfl⟩
  | cons c cs =>
    have hc := hcs c List.mem_cons_self
    have hletter : ¬ (c = 'e' ∨ c = 'E') := not_or.2 ⟨hc.ne (by decide), hc.ne (by decide)⟩
    unfold exponent? at h
    dsimp only at h
    rw [if_neg hletter] at h
    cases h

/-- **Of digits, points and minus signs a numeral is made without signs**, and it is
read as its digits, with as many places as stand behind the point. -/
theorem ofText?_eq_some {cs : List Char} {d : Decimal} (hcs : ∀ c ∈ cs, IsNumeric c)
    (h : ofText? cs = some d) :
    ∃ whole fraction, IsNumeral cs whole fraction ∧
      d = ⟨ofDigits (whole ++ fraction), -fraction.length⟩ := by
  have hdigits (l : List Char) : ∀ c ∈ l.takeWhile Char.isDigit, c.isDigit = true :=
    List.all_eq_true.1 List.all_takeWhile
  have hsplit (l : List Char) : l.takeWhile Char.isDigit ++ l.dropWhile Char.isDigit = l :=
    List.takeWhile_append_dropWhile
  have hrest (l : List Char) (hl : ∀ c ∈ l, IsNumeric c) :
      ∀ c ∈ l.dropWhile Char.isDigit, IsNumeric c :=
    fun c hc => hl c ((List.dropWhile_sublist _).subset hc)
  have hcs' := hrest cs hcs
  -- Behind the whole part stands a point with the places, or nothing.
  unfold ofText? at h
  dsimp only at h
  split at h
  · next r hr =>
    dsimp only at h
    split at h
    · cases h
    · next hsome =>
      obtain ⟨e, he, rfl⟩ := Option.map_eq_some_iff.1 h
      rw [hr] at hcs'
      obtain ⟨hnil, rfl⟩ :=
        exponent?_eq_some (hrest r fun c hc => hcs' c (List.mem_cons_of_mem _ hc)) he
      have hplaces := hsplit r
      rw [hnil, List.append_nil] at hplaces
      refine ⟨cs.takeWhile Char.isDigit, r.takeWhile Char.isDigit, ⟨?_, ?_, .inr ?_⟩, ?_⟩
      · intro c hc
        exact (List.mem_append.1 hc).elim (hdigits cs c) (hdigits r c)
      · simpa using hsome
      · rw [hplaces, ← hr, hsplit]
      · rw [Int.zero_sub]
  · split at h
    · cases h
    · next hsome =>
      obtain ⟨e, he, rfl⟩ := Option.map_eq_some_iff.1 h
      obtain ⟨hnil, rfl⟩ := exponent?_eq_some hcs' he
      have hwhole := hsplit cs
      rw [hnil, List.append_nil] at hwhole
      rw [hwhole] at hsome ⊢
      refine ⟨cs, [], ⟨?_, ?_, .inl ⟨rfl, rfl⟩⟩, rfl⟩
      · rw [List.append_nil]
        exact hwhole ▸ hdigits cs
      · simpa using hsome

end Decimal

namespace Number

open Decimal (IsNumeral)

/-- The double nearest to a numeral, with its sign. -/
def ofNumeral (negative : Bool) (whole fraction : List Char) : Float :=
  Binary.ofRank negative (Decimal.toRank ⟨Decimal.ofDigits (whole ++ fraction), -fraction.length⟩)

/-- The text of a number on a line: a numeral behind an optional minus. -/
inductive IsWritten : List Char → Float → Prop
  | positive {cs whole fraction : List Char} (h : IsNumeral cs whole fraction) :
      IsWritten cs (ofNumeral false whole fraction)
  | negative {cs whole fraction : List Char} (h : IsNumeral cs whole fraction) :
      IsWritten ('-' :: cs) (ofNumeral true whole fraction)

namespace IsWritten

variable {cs : List Char} {x : Float}

theorem isNumeric (h : IsWritten cs x) : ∀ c ∈ cs, IsNumeric c := by
  cases h with
  | positive h => exact fun c hc => (h.forall_mem c hc).imp_right .inl
  | negative h =>
    intro c hc
    rcases List.mem_cons.1 hc with rfl | hc
    · exact .inr (.inr rfl)
    · exact (h.forall_mem c hc).imp_right .inl

theorem ofText? (h : IsWritten cs x) : ofText? cs = some x := by
  cases h with
  | positive h => exact (ofText?_of_isNumeral h).trans (magnitude?_of_isNumeral false h)
  | negative h => exact magnitude?_of_isNumeral true h

end IsWritten

/-- The words for what is not finite start with a letter. -/
theorem map_toLower_ne {cs word : List Char} {c : Char} (hcs : ∀ c ∈ cs, IsNumeric c)
    (hc : 97 ≤ c.toNat) : cs.map Char.toLower ≠ c :: word := by
  cases cs with
  | nil => simp
  | cons d cs =>
    have hd := toNat_of_isNumeric (hcs d List.mem_cons_self)
    intro heq
    have hhead := (List.cons.inj heq).1
    rw [toLower_of_toNat_lt (by omega)] at hhead
    rw [← hhead] at hc
    omega

theorem magnitude?_eq_some {cs : List Char} {x : Float} {negative : Bool}
    (hcs : ∀ c ∈ cs, IsNumeric c) (h : magnitude? negative cs = some x) :
    ∃ whole fraction, IsNumeral cs whole fraction ∧ x = ofNumeral negative whole fraction := by
  unfold magnitude? at h
  split at h
  · next d hd =>
    obtain ⟨whole, fraction, hnumeral, rfl⟩ := Decimal.ofText?_eq_some hcs hd
    exact ⟨whole, fraction, hnumeral, (Option.some.inj h).symm⟩
  · have hword (word : List Char) (c : Char) (hc : 97 ≤ c.toNat) :
        cs.map Char.toLower ≠ c :: word := map_toLower_ne hcs hc
    dsimp only at h
    rw [if_neg, if_neg] at h
    · cases h
    · exact hword _ 'n' (by decide)
    · rintro (heq | heq)
      · exact hword _ 'i' (by decide) heq
      · exact hword _ 'i' (by decide) heq

/-- **Of the texts over digits, points and minus signs the numerals are those that read.** -/
theorem ofText?_eq_some_iff {cs : List Char} {x : Float} (hcs : ∀ c ∈ cs, IsNumeric c) :
    ofText? cs = some x ↔ IsWritten cs x := by
  refine ⟨fun h => ?_, IsWritten.ofText?⟩
  unfold ofText? at h
  split at h
  · next rest =>
    obtain ⟨whole, fraction, hnumeral, rfl⟩ :=
      magnitude?_eq_some (fun c hc => hcs c (List.mem_cons_of_mem _ hc)) h
    exact .negative hnumeral
  · exact absurd (hcs '+' List.mem_cons_self) (by decide)
  · obtain ⟨whole, fraction, hnumeral, rfl⟩ := magnitude?_eq_some hcs h
    exact .positive hnumeral

end Number

end Stepwise
