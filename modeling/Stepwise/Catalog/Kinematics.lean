import Stepwise.Catalog.Basic

/-!
# Kinematics

Motion under constant acceleration along two axes, the decomposition of speeds
into components, and Newton's second law. Distances are in metres, times in
seconds, angles in degrees.
-/

namespace Stepwise.Kinematics

/-- The acceleration by gravity that textbook problems use, in m/s². -/
def gravity : Float := -10.0

/-- The time since the start. -/
def time : Quantity := ⟨"t", some "s"⟩

/-- The mass of the body. -/
def mass : Quantity := ⟨"m", some "kg"⟩

/-- The velocity along an axis at the start. -/
def initialVelocity (axis : String) : Quantity := ⟨"vi" ++ axis, some "m/s"⟩

/-- The velocity along an axis at the end. -/
def finalVelocity (axis : String) : Quantity := ⟨"vf" ++ axis, some "m/s"⟩

/-- The acceleration along an axis. -/
def acceleration (axis : String) : Quantity := ⟨"a" ++ axis, some "m/s²"⟩

/-- The displacement along an axis. -/
def displacement (axis : String) : Quantity := ⟨"d" ++ axis, some "m"⟩

/-- The force along an axis. -/
def force (axis : String) : Quantity := ⟨"f" ++ axis, some "N"⟩

/-- The relations between displacement, velocity, acceleration and time along one
axis. The time from the displacement has a formula for a start at rest and one
for uniform motion. -/
def alongAxis (axis : String) : List Relation :=
  let vi := initialVelocity axis
  let vf := finalVelocity axis
  let a := acceleration axis
  let d := displacement axis
  let t := time
  [{  title := "Compute displacement"
      description := "Since we have velocity-initial and acceleration, we can use the formula for displacement to find the final position."
      takes := [vi, a, t]
      gives := d
      formula := .sum [.product [vi, t],
        .product [.quotient (.number 1.0) (.number 2.0), a, .power t 2]] },
   {  title := "Compute final velocity"
      description := "Since we have velocity-initial and acceleration, we can use the formula for final velocity to find the final velocity."
      takes := [vi, a, t]
      gives := vf
      formula := .sum [vi, .product [a, t]] },
   {  title := "Compute initial velocity"
      description := "Since we have final velocity and acceleration, we can use the formula for initial velocity to find the initial velocity."
      takes := [vf, a, t]
      gives := vi
      formula := .difference vf (.product [a, t]) },
   {  title := "Compute time from velocity change"
      description := "Since we have final velocity and initial velocity, we can use the formula for time to find the time."
      takes := [vi, vf, a]
      gives := t
      formula := .quotient (.difference vf vi) a },
   {  title := "Compute time from displacement"
      description := "Since we have displacement and acceleration, we can use the formula for time to find the time."
      takes := [d, a]
      gives := t
      formula := .sqrt (.quotient (.product [.number 2.0, d]) a)
      presumes := .ofList [(vi.name, 0.0)] },
   {  title := "Compute time from displacement"
      description := "Since we have displacement and initial velocity, we can use the formula for time to find the time."
      takes := [d, vi]
      gives := t
      formula := .quotient d vi
      presumes := .ofList [(a.name, 0.0)] }]

/-- The components of the speeds at the start and at the end. -/
def components : List Relation :=
  let si : Quantity := ⟨"si", some "m/s"⟩
  let ai : Quantity := ⟨"ai", some "deg"⟩
  let sf : Quantity := ⟨"sf", some "m/s"⟩
  let af : Quantity := ⟨"af", some "deg"⟩
  [{  title := "Angle initial + Speed initial -> Vix"
      description := "Since we have the angle and the speed, we can use cos to derive Vix"
      takes := [si, ai]
      gives := initialVelocity "x"
      formula := .product [si, .call .cos ai] },
   {  title := "Angle initial + Speed initial -> Viy"
      description := "Since we have the angle and the speed, we can use sin to derive Viy"
      takes := [si, ai]
      gives := initialVelocity "y"
      formula := .product [si, .call .sin ai] },
   {  title := "Angle final + Speed final -> Vfx"
      description := "Since we have the angle and the speed, we can use cos to derive Vfx"
      takes := [sf, af]
      gives := finalVelocity "x"
      formula := .product [sf, .call .cos af] },
   {  title := "Angle final + Speed final -> Vfy"
      description := "Since we have the angle and the speed, we can use sin to derive Vfy"
      takes := [sf, af]
      gives := finalVelocity "y"
      formula := .product [sf, .call .sin af] }]

/-- Newton's second law, solved for each of its quantities. -/
def secondLaw : List Relation :=
  let m := mass
  let ax := acceleration "x"
  let ay := acceleration "y"
  let fx := force "x"
  let fy := force "y"
  [{  title := "Mass + Acceleration -> Force (X)"
      description := "Since we have the mass and acceleration, we can use the formula for force to find the force in the x direction."
      takes := [m, ax]
      gives := fx
      formula := .product [m, ax] },
   {  title := "Mass + Acceleration -> Force (Y)"
      description := "Since we have the mass and acceleration, we can use the formula for force to find the force in the y direction."
      takes := [m, ay]
      gives := fy
      formula := .product [m, ay] },
   {  title := "Force + Acceleration -> Mass (X)"
      description := "Since we have the force and acceleration, we can use the formula for mass to find the mass."
      takes := [fx, ax]
      gives := m
      formula := .quotient fx ax },
   {  title := "Force + Acceleration -> Mass (Y)"
      description := "Since we have the force and acceleration, we can use the formula for mass to find the mass."
      takes := [fy, ay]
      gives := m
      formula := .quotient fy ay },
   {  title := "Force + Mass -> Acceleration (X)"
      description := "Since we have the force and mass, we can use the formula for acceleration to find the acceleration in the x direction."
      takes := [fx, m]
      gives := ax
      formula := .quotient fx m },
   {  title := "Force + Mass -> Acceleration (Y)"
      description := "Since we have the force and mass, we can use the formula for acceleration to find the acceleration in the y direction."
      takes := [fy, m]
      gives := ay
      formula := .quotient fy m }]

/-- Things fall: a displacement or an acceleration upward is likely a sign slip,
and an acceleration other than gravity is likely an oversight. -/
def warnings : List Warning :=
  [.onValue "negative-displacement" "dy" (0.0 < ·) fun dy =>
      ⟨"The displacement is positive",
        [(Button.setting "Flip the direction" "dy" (-dy)).recommended]⟩,
   .onValue "negative-accel" "ay" (0.0 < ·) fun ay =>
      ⟨"The acceleration is positive",
        [(Button.setting "Flip the direction" "ay" (-ay)).recommended]⟩,
   .onValue "realistic-gravity" "ay" (· != gravity) fun _ =>
      ⟨"The acceleration is not -10 m/s², which is the acceleration used in physics problems",
        [(Button.setting "Set acceleration to -10 m/s²" "ay" gravity).recommended]⟩]

/-- The catalog of kinematics. -/
def catalog : Catalog where
  name := "kinematics"
  relations := alongAxis "x" ++ alongAxis "y" ++ components ++ secondLaw
  implicits := [("ax", 0.0), ("ay", gravity), ("viy", 0.0), ("vix", 0.0)]
  warnings

end Stepwise.Kinematics
