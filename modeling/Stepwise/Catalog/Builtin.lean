import Stepwise.Catalog.Kinematics
import Stepwise.Catalog.Registry
import Stepwise.Catalog.Slopes

/-!
# The catalogs that come with the solver

Kinematics and slopes have modules of their own. The third catalog is that of the unit
circle: the point at an angle on the circle of radius one, and the slope of its radius.
-/

namespace Stepwise.UnitCircle

/-- The catalog of the unit circle. -/
def catalog : Catalog :=
  let a : Quantity := ⟨"a", some "deg"⟩
  { name := "unit-circle"
    implicits := [("a", 0.0), ("b", 0.0)]
    relations := [
    { title := "Compute x from angle"
      description := "Using the formula for x, we can find the x position."
      takes := [a]
      gives := ⟨"x", none⟩
      formula := .call .cos a },
    { title := "Compute y from angle"
      description := "Using the formula for y, we can find the y position."
      takes := [a]
      gives := ⟨"y", none⟩
      formula := .call .sin a },
    { title := "Compute y/x from angle"
      description := "Using the formula for y/x, we can find the slope of the radius."
      takes := [a]
      gives := ⟨"t", none⟩
      formula := .call .tan a }] }

end Stepwise.UnitCircle

namespace Stepwise.Registry

/-- Kinematics, slopes and the unit circle. -/
def builtin : Registry :=
  empty.registerAll [Kinematics.catalog, Slopes.catalog, UnitCircle.catalog]

end Stepwise.Registry
