import Stepwise.Angle
import Stepwise.Bindings
import Stepwise.Expr.Basic
import Stepwise.Number.Decimal

/-!
# The value of a formula

Substitution puts the bound value in the place of every name; the ground formula
that results is then reduced to a number. Operands are visited from left to right
and the first failure is the failure of the whole: a formula is substituted
exactly if all its names are bound.
-/

namespace Stepwise

/-- Why a formula has no value. -/
inductive EvalFault
  /-- Substitution met a name without a value. -/
  | unbound (name : String)
  /-- Evaluation met a name, which substitution should have replaced. -/
  | unsubstituted (name : String)
  /-- An angle on an axis has no reference angle. -/
  | axisAngle (degrees : Float)
deriving DecidableEq

/-- What is said of a formula without a value. -/
def EvalFault.message : EvalFault → String
  | .unbound name => "variable " ++ name ++ " not found when substituting"
  | .unsubstituted name =>
    "attempted to evaluate variable " ++ name ++ ", substitution must be done first"
  | .axisAngle degrees =>
    "reference angle is undefined for " ++ Number.text degrees ++ " degrees"

/-- The value of a function, for angles in degrees. -/
def AngleFunction.apply (function : AngleFunction) (x : Float) : Except EvalFault Float :=
  match function with
  | .sin => .ok (Angle.toRadians x).sin
  | .cos => .ok (Angle.toRadians x).cos
  | .tan => .ok (Angle.toRadians x).tan
  | .atan => .ok (Angle.ofRadians x.atan)
  | .reference =>
    match Angle.reference? x with
    | some angle => .ok angle
    | none => .error (.axisAngle x)

namespace Expr

mutual

/-- The formula with the bound value in the place of every name. The number keeps
the unit of the quantity that it replaces. -/
def substitute (b : Bindings) : Expr → Except EvalFault Expr
  | .literal value unit => .ok (.literal value unit)
  | .variable q =>
    match b.get? q.name with
    | some value => .ok (.literal value q.unit)
    | none => .error (.unbound q.name)
  | .sum terms => do return .sum (← substituteAll b terms)
  | .product factors => do return .product (← substituteAll b factors)
  | .difference left right => do
    let left ← left.substitute b
    let right ← right.substitute b
    return .difference left right
  | .quotient left right => do
    let left ← left.substitute b
    let right ← right.substitute b
    return .quotient left right
  | .sqrt operand => do return .sqrt (← operand.substitute b)
  | .power base exponent => do return .power (← base.substitute b) exponent
  | .group inner => do return .group (← inner.substitute b)
  | .call function argument => do return .call function (← argument.substitute b)

/-- Substitution in a list of operands. -/
def substituteAll (b : Bindings) : List Expr → Except EvalFault (List Expr)
  | [] => .ok []
  | e :: rest => do
    let e ← e.substitute b
    let rest ← substituteAll b rest
    return e :: rest

end

/-- `result * base ^ p` for a positive `p`, by repeated squaring: the bits of `p`
from the lowest on decide which squares are multiplied in. The square after the
highest bit is not taken. -/
def powerLoop (result base : Float) (p : Nat) : Float :=
  let result := if p % 2 = 1 then result * base else result
  if h : p / 2 = 0 then result else powerLoop result (base * base) (p / 2)
termination_by p
decreasing_by omega

/-- A number to a whole power; a negative one is the reciprocal of the positive. -/
def integerPower (base : Float) (exponent : Int32) : Float :=
  let magnitude := powerLoop 1.0 base exponent.toInt.natAbs
  if exponent < 0 then 1.0 / magnitude else magnitude

mutual

/-- The value of a ground formula. Sums start from zero and products from one. -/
def evaluate : Expr → Except EvalFault Float
  | .literal value _ => .ok value
  | .variable q => .error (.unsubstituted q.name)
  | .sum terms => addTo 0.0 terms
  | .product factors => multiplyTo 1.0 factors
  | .difference left right => do
    let l ← left.evaluate
    let r ← right.evaluate
    return l - r
  | .quotient left right => do
    let l ← left.evaluate
    let r ← right.evaluate
    return l / r
  | .sqrt operand => do return (← operand.evaluate).sqrt
  | .power base exponent => do return integerPower (← base.evaluate) exponent
  | .group inner => inner.evaluate
  | .call function argument => do function.apply (← argument.evaluate)

/-- Add the values of the terms to a total, from left to right. -/
def addTo (total : Float) : List Expr → Except EvalFault Float
  | [] => .ok total
  | e :: rest => do addTo (total + (← e.evaluate)) rest

/-- Multiply a total by the values of the factors, from left to right. -/
def multiplyTo (total : Float) : List Expr → Except EvalFault Float
  | [] => .ok total
  | e :: rest => do multiplyTo (total * (← e.evaluate)) rest

end

end Expr

end Stepwise
