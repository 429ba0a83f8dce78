import Stepwise.Number.Binary

/-!
# Angles in degrees

Whole turns are removed by an exact remainder. An angle that lies on an axis
belongs to no quadrant, so it has no reference angle.
-/

namespace Stepwise.Angle

/-- An angle with whole turns removed. Adding a turn to a tiny negative
remainder may round to a whole turn. -/
def wrap (degrees : Float) : Float :=
  let rest := Binary.remainder degrees 360
  if rest < 0.0 then rest + 360.0 else rest

/-- The axis that ends the quadrant of a wrapped angle, if it lies inside one. -/
def nextAxis? (wrapped : Float) : Option Float :=
  if 0.0 < wrapped ∧ wrapped < 90.0 then some 90.0
  else if 90.0 < wrapped ∧ wrapped < 180.0 then some 180.0
  else if 180.0 < wrapped ∧ wrapped < 270.0 then some 270.0
  else if 270.0 < wrapped ∧ wrapped < 360.0 then some 360.0
  else none

/-- The angle between `degrees` and the next axis, if it is not on one. -/
def reference? (degrees : Float) : Option Float :=
  (nextAxis? (wrap degrees)).map fun axis => wrap (axis - wrap degrees)

/-- The double nearest to the ratio of a circle's circumference to its diameter. -/
def pi : Float := .ofBits 0x400921FB54442D18

/-- Degrees as radians. -/
def toRadians (degrees : Float) : Float := degrees * (pi / 180.0)

/-- Radians as degrees. -/
def ofRadians (radians : Float) : Float := radians * (180.0 / pi)

end Stepwise.Angle
