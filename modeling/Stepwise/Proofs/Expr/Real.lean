import Mathlib.Analysis.SpecialFunctions.Trigonometric.Arctan
import Stepwise.Proofs.Expr.Value

/-!
# Values in the real numbers

The exact value of a formula, with the roots and functions that it means: square roots of
what is not negative, functions of angles in degrees, a tangent where there is one, and
the angle to the next axis off the axes.
-/

namespace Stepwise

open Infix

/-- Degrees as radians. -/
noncomputable def radians (degrees : ℝ) : ℝ := degrees * (Real.pi / 180)

open Classical in
/-- The value of a function at a real number, for angles in degrees. -/
noncomputable def AngleFunction.real : AngleFunction → ℝ → Option ℝ
  | .sin, x => some (Real.sin (radians x))
  | .cos, x => some (Real.cos (radians x))
  | .tan, x => if Real.cos (radians x) = 0 then none else some (Real.tan (radians x))
  | .atan, x => some (Real.arctan x * (180 / Real.pi))
  | .reference, x => if ∃ n : ℤ, x = 90 * n then none else some (90 * (⌊x / 90⌋ + 1) - x)

/-- The real numbers that some names stand for, with exact roots and functions. -/
noncomputable def Interpretation.real (name : String → ℝ) : Interpretation ℝ where
  name
  sqrt x := if 0 ≤ x then some (Real.sqrt x) else none
  call := AngleFunction.real

/-! ## Operations on values -/

section Operations

variable {K : Type} [Field K] [DecidableEq K]

@[simp] theorem apply_plus (x y : K) : Operator.plus.apply (some x) (some y) = some (x + y) := rfl

@[simp] theorem apply_minus (x y : K) : Operator.minus.apply (some x) (some y) = some (x - y) := rfl

@[simp] theorem apply_times (x y : K) : Operator.times.apply (some x) (some y) = some (x * y) := rfl

theorem apply_divide (x : K) {y : K} (hy : y ≠ 0) :
    Operator.divide.apply (some x) (some y) = some (x / y) := by
  show Option.map₂ (· / ·) (some x) ((some y).filter fun y => y ≠ 0) = _
  rw [Option.filter_some, if_pos (decide_eq_true hy)]
  rfl

end Operations

/-! ## Formulas -/

section Formulas

variable {σ : String → ℝ}

@[simp] theorem value_variable (q : Quantity) :
    (Expr.variable q).value (.real σ) = some (σ q.name) := rfl

@[simp] theorem value_sum_nil : (Expr.sum []).value (.real σ) = some 0 := rfl

@[simp] theorem value_sum_cons (e : Expr) (rest : List Expr) :
    (Expr.sum (e :: rest)).value (.real σ) =
      Operator.plus.apply (e.value (.real σ)) ((Expr.sum rest).value (.real σ)) := rfl

@[simp] theorem value_product_nil : (Expr.product []).value (.real σ) = some 1 := rfl

@[simp] theorem value_product_cons (e : Expr) (rest : List Expr) :
    (Expr.product (e :: rest)).value (.real σ) =
      Operator.times.apply (e.value (.real σ)) ((Expr.product rest).value (.real σ)) := rfl

@[simp] theorem value_difference (l r : Expr) : (Expr.difference l r).value (.real σ) =
    Operator.minus.apply (l.value (.real σ)) (r.value (.real σ)) := rfl

theorem value_change (p q : Quantity) :
    (Expr.difference p q).value (.real σ) = some (σ p.name - σ q.name) := rfl

@[simp] theorem value_square (q : Quantity) :
    (Expr.power q 2).value (.real σ) = some (σ q.name ^ 2) := by
  have htwo : (2 : Int32).toInt = (2 : Nat) := rfl
  show ((some (σ q.name)).filter fun x => x ≠ 0 ∨ 0 ≤ (2 : Int32).toInt).map
    (· ^ (2 : Int32).toInt) = _
  rw [htwo, Option.filter_some, if_pos (decide_eq_true (.inr (Int.natCast_nonneg 2))),
    Option.map_some, zpow_natCast]

@[simp] theorem value_one : (Expr.number 1.0).value (.real σ) = some 1 := by
  show some ((Binary.exact 1.0 : ℚ) : ℝ) = _
  rw [Binary.exact_one, Rat.cast_one]

@[simp] theorem value_two : (Expr.number 2.0).value (.real σ) = some 2 := by
  show some ((Binary.exact 2.0 : ℚ) : ℝ) = _
  rw [Binary.exact_two, Rat.cast_ofNat]

@[simp] theorem value_cos (q : Quantity) :
    (Expr.call .cos q).value (.real σ) = some (Real.cos (radians (σ q.name))) := rfl

@[simp] theorem value_sin (q : Quantity) :
    (Expr.call .sin q).value (.real σ) = some (Real.sin (radians (σ q.name))) := rfl

@[simp] theorem value_atan (q : Quantity) :
    (Expr.call .atan q).value (.real σ) = some (Real.arctan (σ q.name) * (180 / Real.pi)) := rfl

theorem value_tan {q : Quantity} (h : Real.cos (radians (σ q.name)) ≠ 0) :
    (Expr.call .tan q).value (.real σ) = some (Real.tan (radians (σ q.name))) :=
  if_neg h

theorem value_quotient {l r : Expr} {x y : ℝ} (hl : l.value (.real σ) = some x)
    (hr : r.value (.real σ) = some y) (hy : y ≠ 0) :
    (Expr.quotient l r).value (.real σ) = some (x / y) := by
  rw [Expr.value, hl, hr, apply_divide x hy]

/-- The root of a square is the number, if it is not negative. -/
theorem value_sqrt {e : Expr} {x : ℝ} (h : e.value (.real σ) = some (x ^ 2)) (hx : 0 ≤ x) :
    (Expr.sqrt e).value (.real σ) = some x := by
  rw [Expr.value, h]
  show (if 0 ≤ x ^ 2 then some (Real.sqrt (x ^ 2)) else none) = _
  rw [if_pos (sq_nonneg x), Real.sqrt_sq hx]

end Formulas

end Stepwise
