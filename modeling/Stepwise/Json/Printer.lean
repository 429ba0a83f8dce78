import Stepwise.Json.Basic

/-!
# JSON text

Values are written without blanks. Quotes, backslashes and control characters are
escaped, and all other characters stand for themselves.

A number that is no whole number by its kind shows it: it has a point, an exponent or
both, as in `3.0`, `1e21` and `1.5e-7`. Its digits are the fewest that read back; of
numbers of very different sizes all but the first digit stand behind the point.
-/

namespace Stepwise.Json

/-! ## Texts -/

/-- The hexadecimal digit of a number below sixteen. -/
def hexDigit (n : Nat) : Char := Nat.digitChar n

/-- A character as it is written between quotes. -/
def escape (c : Char) : List Char :=
  if c = '"' then ['\\', '"']
  else if c = '\\' then ['\\', '\\']
  else if c = '\n' then ['\\', 'n']
  else if c = '\r' then ['\\', 'r']
  else if c = '\t' then ['\\', 't']
  else if c = '\x08' then ['\\', 'b']
  else if c = '\x0c' then ['\\', 'f']
  else if c.toNat < 0x20 then
    ['\\', 'u', '0', '0', hexDigit (c.toNat / 16), hexDigit (c.toNat % 16)]
  else [c]

/-- A text between quotes. -/
def quote (s : String) : String := "\"" ++ String.ofList (s.toList.flatMap escape) ++ "\""

/-! ## Numbers -/

/-- The even one of the two shortest decimals that are equally near to the value of a
rank. If there are two, the upper one is given. -/
def evenOnTie (r : Nat) (d : Decimal) : Decimal :=
  let lower : Decimal := ⟨d.digits - 1, d.exponent⟩
  let isTie := 2 * Binary.units r * Decimal.tenTo (-d.exponent) =
    (2 * d.digits - 1) * Binary.unitsPerOne * Decimal.tenTo d.exponent
  if d.digits % 2 = 1 ∧ isTie ∧ lower.toRank = r then lower else d

/-- The digits of a decimal without the zeros that end them. -/
def significantDigits (d : Decimal) : List Char :=
  ((Nat.toDigits 10 d.digits).reverse.dropWhile (· == '0')).reverse

/-- The place of the point behind the first digit of a decimal. -/
def pointPlace (d : Decimal) : Int := d.exponent + (Nat.toDigits 10 d.digits).length

/-- A numeral: digits before the point, digits behind it and a power of ten. -/
structure Numeral where
  whole : List Char
  places : List Char
  power : Int := 0

namespace Numeral

/-- The most digits that are written before a point. -/
def maxWhole : Int := 16

/-- The most zeros that are written between a point and the first other digit. -/
def maxZeros : Int := 4

/-- The numeral of digits with their point at a place. Numbers out of the common range
have one digit before the point and an exponent. -/
def ofDigits (digits : List Char) (place : Int) : Numeral :=
  if digits.length ≤ place ∧ place ≤ maxWhole then
    { whole := digits ++ List.replicate (place - digits.length).toNat '0', places := ['0'] }
  else if 0 < place ∧ place ≤ maxWhole then
    { whole := digits.take place.toNat, places := digits.drop place.toNat }
  else if -maxZeros ≤ place ∧ place ≤ 0 then
    { whole := ['0'], places := List.replicate (-place).toNat '0' ++ digits }
  else { whole := digits.take 1, places := digits.drop 1, power := place - 1 }

/-- The places of a numeral behind their point, if there are any. -/
def point (places : List Char) : List Char := if places.isEmpty then [] else '.' :: places

/-- The exponent of a numeral behind its letter, if it is not zero. -/
def exponent (power : Int) : List Char := if power = 0 then [] else 'e' :: power.repr.toList

/-- The characters of a numeral. -/
def chars (n : Numeral) : List Char := n.whole ++ point n.places ++ exponent n.power

end Numeral

/-- The numeral of a finite rank. -/
def numeral (r : Nat) : Numeral :=
  let d := evenOnTie r (Decimal.shortest r)
  .ofDigits (significantDigits d) (pointPlace d)

/-- The text of a finite number. -/
def numberText (x : Float) : String :=
  String.ofList ((if Binary.isNegative x then ['-'] else []) ++ (numeral (Binary.rank x)).chars)

/-! ## Values -/

mutual

/-- The text of a value. -/
def text : Json → String
  | .null => "null"
  | .bool b => if b then "true" else "false"
  | .integer n => n.repr
  | .number x => if Number.isFinite x then numberText x else "null"
  | .string s => quote s
  | .array items => "[" ++ ",".intercalate (itemTexts items) ++ "]"
  | .object members => "\x7b" ++ ",".intercalate (memberTexts members) ++ "\x7d"

/-- The texts of the items of a list. -/
def itemTexts : List Json → List String
  | [] => []
  | item :: rest => item.text :: itemTexts rest

/-- The texts of the members of an object. -/
def memberTexts : List (String × Json) → List String
  | [] => []
  | (key, value) :: rest => (quote key ++ ":" ++ value.text) :: memberTexts rest

end

end Stepwise.Json
