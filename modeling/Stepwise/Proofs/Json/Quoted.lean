import Stepwise.Json.Printer
import Stepwise.Json.Reader

/-!
# Texts between quotes

What stands between quotes is read in two passes, from characters to code points and
from code points to characters. What is written for a character is one code point of
the first pass, and no character is a surrogate that the second would join:

> `quoted_escape`: a text is read back from between its quotes, and nothing of what
> stands behind them is taken.
-/

namespace Stepwise.Json

theorem toList_quote (s : String) :
    (quote s).toList = '"' :: (s.toList.flatMap escape ++ ['"']) := by
  have hmark : "\"".toList = ['"'] := rfl
  unfold quote
  simp only [String.toList_append, String.toList_ofList, hmark]
  rfl

theorem codeUnit?_hexDigit {n : Nat} (h : n < 0x20) :
    codeUnit? '0' '0' (hexDigit (n / 16)) (hexDigit (n % 16)) = some n := by
  revert n
  decide

/-- What is written for a character is read as its code point. -/
theorem codes?_escape (c : Char) (cs : List Char) :
    codes? (escape c ++ cs) = (codes? cs).bind fun (codes, rest) => some (c.toNat :: codes, rest) := by
  unfold escape
  -- Seven characters have a letter of their own, the others have a number or stand as they are.
  iterate 7
    split
    · next h =>
      subst h
      rfl
  split
  · next h =>
    show (codeUnit? '0' '0' (hexDigit (c.toNat / 16)) (hexDigit (c.toNat % 16))).bind _ = _
    rw [codeUnit?_hexDigit h]
    rfl
  · next hquote hslash _ _ _ _ _ hcontrol =>
    rw [List.singleton_append, codes?.eq_def]
    split
    · next heq => cases heq
    · next heq => exact absurd (List.cons.inj heq).1 hquote
    · next heq => exact absurd (List.cons.inj heq).1 hslash
    · next heq => exact absurd (List.cons.inj heq).1 hslash
    · next heq =>
      cases heq
      rw [if_neg hcontrol]
      rfl

theorem codes?_flatMap_escape (text rest : List Char) :
    codes? (text.flatMap escape ++ '"' :: rest) = some (text.map Char.toNat, rest) := by
  induction text with
  | nil => rfl
  | cons c text ih =>
    rw [List.flatMap_cons, List.append_assoc, codes?_escape, ih]
    rfl

/-- Characters are no surrogates. -/
theorem characters?_toNat (unpaired : Option Char) (text : List Char) :
    characters? unpaired (text.map Char.toNat) = some text := by
  have hcode (c : Char) : ¬ (0xD800 ≤ c.toNat ∧ c.toNat < 0xE000) := by
    have hvalid : c.toNat < 0xD800 ∨ 0xDFFF < c.toNat ∧ c.toNat < 0x110000 := c.valid
    omega
  induction text with
  | nil => rfl
  | cons c text ih =>
    cases text with
    | nil =>
      rw [List.map_cons, List.map_nil, characters?, if_neg (hcode c), Char.ofNat_toNat]
      rfl
    | cons d text =>
      have hhigh := hcode c
      rw [List.map_cons, List.map_cons, characters?, if_neg (by omega), if_neg (hcode c),
        Char.ofNat_toNat]
      rw [List.map_cons] at ih
      rw [ih]
      rfl

/-- **A text between quotes is read back.** -/
theorem quoted_escape (ignored : Bool) (s : String) (rest : List Char) :
    quoted ignored (s.toList.flatMap escape ++ '"' :: rest) = .ok (s, rest) := by
  unfold quoted
  simp only [codes?_flatMap_escape, characters?_toNat, Option.bind_eq_bind, Option.bind_some,
    String.ofList_toList]
  rfl

end Stepwise.Json
