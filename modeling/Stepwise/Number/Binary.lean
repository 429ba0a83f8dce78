/-!
# Doubles as whole numbers

The nonnegative doubles, zero to infinity, are ordered like their bit patterns:
the pattern read as a number is the **rank** of the double. One unit, `2 ^ -1074`,
measures them all, so the value of a finite double is a whole number of units,

> `units r = significand r * 2 ^ scale r`,

and rounding a quotient to the nearest double is a computation on natural numbers.
Everything that reads or prints a number is built on these two views.
-/

namespace Stepwise.Binary

/-- The rank at which the values of one exponent end and those of the next begin. -/
def binade : Nat := .pow 2 52

/-- The rank of infinity, above every finite rank. -/
def infinityRank : Nat := 2047 * binade

/-- How many of the units `2 ^ -1074` make one. -/
def unitsPerOne : Nat := .pow 2 1074

/-- The value of the sign bit in a bit pattern. -/
def signBit : Nat := .pow 2 63

/-- Whether the sign bit of a double is set, as it is for `-0`. -/
def isNegative (x : Float) : Bool := signBit ≤ x.toBits.toNat

/-- The rank of a double, whatever its sign. -/
def rank (x : Float) : Nat := x.toBits.toNat % signBit

/-- The double of the given sign and rank. -/
def ofRank (negative : Bool) (r : Nat) : Float :=
  .ofBits (.ofNat (if negative then signBit + r else r))

/-- Infinity, or its negative. -/
def infinity (negative : Bool) : Float := ofRank negative infinityRank

/-- The value that is no number. -/
def notANumber : Float := .ofBits 0x7FF8000000000000

/-- How often the significand is doubled: zero for the subnormal ranks and for
the first binade above them, which share one spacing. -/
def scale (r : Nat) : Nat := r / binade - 1

/-- The significand of a finite rank; the leading bit of a normal one is implied. -/
def significand (r : Nat) : Nat := if r < binade then r else binade + r % binade

/-- The value of a finite rank in units of `2 ^ -1074`. -/
def units (r : Nat) : Nat := significand r * .pow 2 (scale r)

/-- A quotient rounded to the nearest whole number, a half to the even neighbour. -/
def roundHalfEven (num den : Nat) : Nat :=
  let low := num / den
  let twice := 2 * (num % den)
  if twice < den then low
  else if den < twice then low + 1
  else low + low % 2

/-- The rank of the double nearest to `num / den`, a tie going to the even
significand and a value past the largest finite double to infinity.

The significand is rounded on the grid of its binade. When it is carried into
the next binade the sum below counts on into the ranks of that binade. -/
def nearestRank (num den : Nat) : Nat :=
  let scaled := num * unitsPerOne
  let shift := (scaled / den).log2 - 52
  min infinityRank (roundHalfEven scaled (den * .pow 2 shift) + shift * binade)

/-- The largest whole number of the sign of `x` that is at most `x`; infinities,
`NaN` and zeros are their own floor.

Dropping the bits below one truncates; a negative number that lost some then
steps one whole unit away from zero. -/
def floor (x : Float) : Float :=
  let r := rank x
  -- From two to the 52nd power on every double is whole.
  if r = 0 ∨ 1075 * binade ≤ r then x
  -- Below one nothing is left of the magnitude.
  else if r < 1023 * binade then if isNegative x then -1.0 else 0.0
  else
    let whole := Nat.pow 2 (1075 - r / binade)
    let kept := r / whole * whole
    ofRank (isNegative x) (if isNegative x ∧ kept ≠ r then kept + whole else kept)

/-- The remainder of `x` by the positive whole number `modulus`, with the sign of
`x` and computed exactly; it is no number when `x` is not finite. -/
def remainder (x : Float) (modulus : Nat) : Float :=
  let r := rank x
  if infinityRank ≤ r then notANumber
  else ofRank (isNegative x) (nearestRank (units r % (modulus * unitsPerOne)) unitsPerOne)

end Stepwise.Binary
