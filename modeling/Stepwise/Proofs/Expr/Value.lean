import Mathlib.Algebra.Field.Basic
import Mathlib.Data.Option.NAry
import Stepwise.Proofs.Expr.Infix
import Stepwise.Proofs.Number.Exact

/-!
# Values in a field

What a formula, and what an expression that was read, stands for in a field: its
numbers for the rationals that they are, its names for what an assignment says. The
field's own operations are exact. Of roots and functions nothing is known but which
arguments they have a value for; a quotient by zero has none, nor has a negative
power of zero, and what has a part without a value has none itself.
-/

namespace Stepwise

open Infix

universe u

/-- What the names stand for, and what roots and functions do. -/
structure Interpretation (K : Type u) where
  name : String → K
  sqrt : K → Option K
  call : AngleFunction → K → Option K

variable {K : Type u} [Field K] [DecidableEq K]

/-- What an operator makes of the values of its operands. -/
def Infix.Operator.apply : Operator → Option K → Option K → Option K
  | .plus, a, b => Option.map₂ (· + ·) a b
  | .minus, a, b => Option.map₂ (· - ·) a b
  | .times, a, b => Option.map₂ (· * ·) a b
  | .divide, a, b => Option.map₂ (· / ·) a (b.filter fun y => y ≠ 0)

/-- A sum may take the terms of its right operand one by one, and a product the
factors. -/
theorem Infix.Operator.apply_apply {op op' : Operator} (hop : op = .plus ∨ op = .times)
    (hlevel : op'.level = op.level) (a b c : Option K) :
    op.apply a (op'.apply b c) = op'.apply (op.apply a b) c := by
  rcases hop with rfl | rfl
  · cases op' with
    | plus => exact (Option.map₂_assoc add_assoc).symm
    | minus => exact (Option.map₂_assoc add_sub_assoc).symm
    | times => cases hlevel
    | divide => cases hlevel
  · cases op' with
    | plus => cases hlevel
    | minus => cases hlevel
    | times => exact (Option.map₂_assoc mul_assoc).symm
    | divide => exact (Option.map₂_assoc mul_div_assoc).symm

/-- A power to a whole exponent, not to a negative one of zero. -/
def raise (a : Option K) (n : Int) : Option K := (a.filter fun x => x ≠ 0 ∨ 0 ≤ n).map (· ^ n)

variable (I : Interpretation K)

/-- What an expression stands for. -/
def Infix.Reading.value : Reading → Option K
  | .number x => some (Binary.exact x : K)
  | .name n => some (I.name n)
  | .negation operand => operand.value.map (- ·)
  | .binary operator left right => operator.apply left.value right.value
  | .power base exponent => raise base.value exponent
  | .sqrt operand => operand.value.bind I.sqrt
  | .call function argument => argument.value.bind (I.call function)

namespace Expr

mutual

/-- What a formula stands for. -/
def value : Expr → Option K
  | .literal value _ => some (Binary.exact value : K)
  | .variable q => some (I.name q.name)
  | .sum terms => (values terms).foldr Operator.plus.apply (some 0)
  | .product factors => (values factors).foldr Operator.times.apply (some 1)
  | .difference left right => Operator.minus.apply left.value right.value
  | .quotient left right => Operator.divide.apply left.value right.value
  | .sqrt operand => operand.value.bind I.sqrt
  | .power base exponent => raise base.value exponent.toInt
  | .group inner => inner.value
  | .call function argument => argument.value.bind (I.call function)

/-- What the operands of a formula stand for. -/
def values : List Expr → List (Option K)
  | [] => []
  | e :: rest => e.value :: values rest

end

end Expr

end Stepwise
