import Stepwise.Number.Binary

/-!
# Decimal texts of doubles

A decimal is a natural number of powers of ten. It is read by rounding its value
to the nearest double, and a double is written with the fewest digits that read
back:

> `shortest r` is a point of the coarsest decimal grid on which one of the two
> neighbours of the value reads back as `r`.

Of two such neighbours the nearer is taken, the upper one on a tie. The text is
positional, without an exponent: `1000000000000000000000`, `0.0000001`, `-0`.
-/

namespace Stepwise

/-- The value `digits * 10 ^ exponent`. -/
structure Decimal where
  digits : Nat
  exponent : Int
deriving DecidableEq

namespace Decimal

/-- Ten to a power, or one if the power is negative. -/
def tenTo (power : Int) : Nat := .pow 10 power.toNat

/-- The rank of the double nearest to a decimal.

The number of digits bounds the value, so powers of ten far outside the range of
doubles are never computed. -/
def toRank (d : Decimal) : Nat :=
  let size := d.exponent + (Nat.repr d.digits).length
  if d.digits = 0 ∨ size < -400 then 0
  else if 400 < size then Binary.infinityRank
  else Binary.nearestRank (d.digits * tenTo d.exponent) (tenTo (-d.exponent))

/-- The exact value of a finite rank, which has at most 1074 decimal places. -/
def ofRank (r : Nat) : Decimal := ⟨Binary.units r * .pow 5 1074, -1074⟩

/-- A neighbour of the value of rank `r` among the multiples of `10 ^ exponent`
that reads back as `r`: the nearer one if both do, the upper one on a tie. -/
def onGrid? (r : Nat) (exponent : Int) : Option Decimal :=
  let num := Binary.units r * tenTo (-exponent)
  let den := Binary.unitsPerOne * tenTo exponent
  let below : Decimal := ⟨num / den, exponent⟩
  let above : Decimal := ⟨num / den + 1, exponent⟩
  let (near, far) := if den ≤ 2 * (num % den) then (above, below) else (below, above)
  if near.toRank = r then some near
  else if far.toRank = r then some far
  else none

/-- The first hit on `grids` grids, each ten times finer than the one before;
without one the exact value, which always reads back. -/
def firstOnGrid (r : Nat) : (grids : Nat) → (exponent : Int) → Decimal
  | 0, _ => ofRank r
  | grids + 1, exponent => (onGrid? r exponent).getD (firstOnGrid r grids (exponent - 1))

/-- A power of ten that the value of a finite rank does not exceed by a factor of
ten, from the position of its leading bit. -/
def startExponent (r : Nat) : Int :=
  (((Binary.units r).log2 : Int) - 1073) * 30103 / 100000 + 1

/-- The shortest decimal that reads back as the finite rank `r`. Seventeen digits
tell all doubles apart, so the hit comes within the grids tried. -/
def shortest (r : Nat) : Decimal :=
  if r = 0 then ⟨0, 0⟩ else firstOnGrid r 20 (startExponent r)

/-- The positional text of a decimal. -/
def text (d : Decimal) : String :=
  let ds := (Nat.repr d.digits).toList
  let places := (-d.exponent).toNat
  if places = 0 then String.ofList (ds ++ List.replicate d.exponent.toNat '0')
  else
    let padded := List.replicate (places + 1 - ds.length) '0' ++ ds
    let whole := padded.length - places
    String.ofList (padded.take whole ++ '.' :: padded.drop whole)

/-- The number that a run of decimal digits stands for. -/
def ofDigits (ds : List Char) : Nat := ds.foldl (fun n c => 10 * n + (c.toNat - '0'.toNat)) 0

/-- An optional exponent that ends a numeral: `e` or `E`, an optional sign, digits. -/
def exponent? : List Char → Option Int
  | [] => some 0
  | e :: rest =>
    if e = 'e' ∨ e = 'E' then
      let (negative, ds) := match rest with
        | '-' :: ds => (true, ds)
        | '+' :: ds => (false, ds)
        | ds => (false, ds)
      if ds.isEmpty ∨ ¬ ds.all Char.isDigit then none
      else some (if negative then -(ofDigits ds : Int) else ofDigits ds)
    else none

/-- An unsigned numeral: digits with at most one point and at least one digit,
then an optional exponent. -/
def ofText? (cs : List Char) : Option Decimal :=
  let whole := cs.takeWhile Char.isDigit
  let afterWhole := cs.dropWhile Char.isDigit
  let (fraction, rest) := match afterWhole with
    | '.' :: r => (r.takeWhile Char.isDigit, r.dropWhile Char.isDigit)
    | r => ([], r)
  if whole.isEmpty ∧ fraction.isEmpty then none
  else (exponent? rest).map fun e => ⟨ofDigits (whole ++ fraction), e - fraction.length⟩

end Decimal

namespace Number

/-- The text of a number: the shortest digits that read back, written positionally. -/
def text (x : Float) : String :=
  let r := Binary.rank x
  if Binary.infinityRank < r then "NaN"
  else
    let magnitude := if r = Binary.infinityRank then "inf" else (Decimal.shortest r).text
    if Binary.isNegative x then "-" ++ magnitude else magnitude

/-- An unsigned number: a numeral, or in any letter case `inf`, `infinity` or `nan`. -/
def magnitude? (negative : Bool) (cs : List Char) : Option Float :=
  match Decimal.ofText? cs with
  | some d => some (Binary.ofRank negative d.toRank)
  | none =>
    let word := cs.map Char.toLower
    if word = "inf".toList ∨ word = "infinity".toList then some (Binary.infinity negative)
    else if word = "nan".toList then some Binary.notANumber
    else none

/-- A number with an optional sign, rounded to the nearest double. -/
def ofText? : List Char → Option Float
  | '-' :: cs => magnitude? true cs
  | '+' :: cs => magnitude? false cs
  | cs => magnitude? false cs

/-- The double nearest to a whole number. -/
def ofInt (n : Int) : Float := Binary.ofRank (n < 0) (Decimal.toRank ⟨n.natAbs, 0⟩)

/-- Whether a number is finite. -/
def isFinite (x : Float) : Bool := Binary.rank x < Binary.infinityRank

end Number

end Stepwise
