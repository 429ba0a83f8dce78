import Stepwise.Catalog.Basic

/-!
# Slopes

The straight line through two points: the differences of their coordinates, its
slope, its intercept, its angle and the distance of the points.
-/

namespace Stepwise.Slopes

/-- The catalog of slopes. -/
def catalog : Catalog :=
  let dx : Quantity := ⟨"Dx", none⟩
  let dy : Quantity := ⟨"Dy", none⟩
  let xi : Quantity := ⟨"xi", none⟩
  let yi : Quantity := ⟨"yi", none⟩
  let xf : Quantity := ⟨"xf", none⟩
  let yf : Quantity := ⟨"yf", none⟩
  let m : Quantity := ⟨"m", none⟩
  let b : Quantity := ⟨"b", none⟩
  let c : Quantity := ⟨"c", none⟩
  let a : Quantity := ⟨"a", some "deg"⟩
  { name := "slopes"
    implicits := [("b", 0.0)]
    relations := [
    { title := "Compute delta-x"
      description := "Using the formula for delta-x, we can find the change in x."
      takes := [xf, xi]
      gives := dx
      formula := .difference xf xi },
    { title := "Compute x-initial"
      description := "Using the formula for x-initial, we can find the initial x position."
      takes := [xf, dx]
      gives := xi
      formula := .difference xf dx },
    { title := "Compute x-final"
      description := "Using the formula for x-final, we can find the final x position."
      takes := [xi, dx]
      gives := xf
      formula := .sum [xi, dx] },
    { title := "Compute delta-y"
      description := "Using the formula for delta-y, we can find the change in y."
      takes := [yf, yi]
      gives := dy
      formula := .difference yf yi },
    { title := "Compute y-initial"
      description := "Using the formula for y-initial, we can find the initial y position."
      takes := [yf, dy]
      gives := yi
      formula := .difference yf dy },
    { title := "Compute y-final"
      description := "Using the formula for y-final, we can find the final y position."
      takes := [yi, dy]
      gives := yf
      formula := .sum [yi, dy] },
    { title := "Compute slope"
      description := "Using the formula for slope, we can find the slope of the line."
      takes := [dy, dx]
      gives := m
      formula := .quotient dy dx },
    { title := "Compute y-intercept"
      description := "Using the formula for y-intercept, we can find the y-intercept of the line."
      takes := [yi, m, xi]
      gives := b
      formula := .difference yi (.product [m, xi]) },
    { title := "Compute y-intercept"
      description := "Using the formula for y-intercept, we can find the y-intercept of the line."
      takes := [yf, m, xf]
      gives := b
      formula := .difference yf (.product [m, xf]) },
    { title := "Compute delta-x from slope"
      description := "Using the formula for delta-x, we can find the change in x."
      takes := [m, dy]
      gives := dx
      formula := .quotient dy m },
    { title := "Compute delta-y from slope"
      description := "Using the formula for delta-y, we can find the change in y."
      takes := [m, dx]
      gives := dy
      formula := .product [m, dx] },
    { title := "Compute y-initial from x-initial"
      description := "Using the formula for y-initial, we can find the initial y position."
      takes := [m, xi, b]
      gives := yi
      formula := .sum [.product [m, xi], b] },
    { title := "Compute x-initial from y-initial"
      description := "Using the formula for x-initial, we can find the initial x position."
      takes := [m, yi, b]
      gives := xi
      formula := .quotient (.difference yi b) m },
    { title := "Compute y-final from x-final"
      description := "Using the formula for y-final, we can find the final y position."
      takes := [m, xf, b]
      gives := yf
      formula := .sum [.product [m, xf], b] },
    { title := "Compute x-final from y-final"
      description := "Using the formula for x-final, we can find the final x position."
      takes := [m, yf, b]
      gives := xf
      formula := .quotient (.difference yf b) m },
    { title := "Compute length of hypotenuse"
      description := "Using the Pythagorean theorem, we can find the length of the hypotenuse."
      takes := [dx, dy]
      gives := c
      formula := .sqrt (.sum [.power dx 2, .power dy 2]) },
    { title := "Angle to slope"
      description := "Using the formula for slope, we can get the slope from the angle"
      takes := [a]
      gives := m
      formula := .call .tan a },
    { title := "Slope to angle"
      description := "Using the formula for slope, we can get the angle from the slope"
      takes := [m]
      gives := a
      formula := .call .atan m }] }

end Stepwise.Slopes
