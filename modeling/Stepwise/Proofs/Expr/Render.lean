import Stepwise.Expr.Render
import Stepwise.Proofs.Expr.Denotation
import Stepwise.Proofs.Expr.Substitution

/-!
# The text of a formula denotes it

A formula is printed with few groups: those of sums in sums, of products in products
and of sums in front of differences are left out where the operands only change their
grouping. What is left suffices, since an operand without a group reads on the level
of its slot (`level_of_needsGroup`):

> `text_denotes`: the text of a well-formed formula has one reading by the infix
> rules, and it stands for what the formula stands for.
-/

namespace Stepwise

open Infix

universe u

/-! ## Well-formed formulas -/

namespace Expr

mutual

/-- Whether sums and products have operands, names are identifiers, and numbers are
finite and not the negative zero. -/
def isWellFormed : Expr → Bool
  | .literal value _ =>
    Number.isFinite value && !(Binary.isNegative value && Binary.rank value == 0)
  | .variable q => isIdentifier q.name
  | .sum terms => !terms.isEmpty && areWellFormed terms
  | .product factors => !factors.isEmpty && areWellFormed factors
  | .difference left right => left.isWellFormed && right.isWellFormed
  | .quotient left right => left.isWellFormed && right.isWellFormed
  | .sqrt operand => operand.isWellFormed
  | .power base _ => base.isWellFormed
  | .group inner => inner.isWellFormed
  | .call _ argument => argument.isWellFormed

/-- Whether all operands are. -/
def areWellFormed : List Expr → Bool
  | [] => true
  | e :: rest => e.isWellFormed && areWellFormed rest

end

theorem areWellFormed_iff {es : List Expr} :
    areWellFormed es = true ↔ ∀ e ∈ es, e.isWellFormed = true := by
  induction es with
  | nil => simp [areWellFormed]
  | cons e es ih => rw [areWellFormed, Bool.and_eq_true, ih, List.forall_mem_cons]

end Expr

/-! ## Levels -/

/-- The level on which the text of a formula reads. -/
def Expr.level : Expr → Level
  | .literal value _ => if value < 0.0 then .signed else .atom
  | .variable _ | .sqrt _ | .group _ | .call .. => .atom
  | .power .. => .power
  | .product _ | .quotient .. => .product
  | .sum _ | .difference .. => .sum

/-- The level on which an operand reads in a slot. -/
def Slot.level : Slot → Level
  | .powerBase => .atom
  | .operand .literal => .power
  | .operand .multiply | .operand .divide => .product
  | .operand _ | .laterTerm => .sum

namespace Expr

theorem needsGroup_render (e : Expr) (slot : Slot) : e.render.needsGroup slot = e.needsGroup slot := by
  cases e <;> cases slot <;> rfl

/-- **An operand without a group reads on the level of its slot.** -/
theorem level_of_needsGroup {e : Expr} {slot : Slot} (h : e.needsGroup slot = false) :
    e.level.height ≤ slot.level.height := by
  cases e with
  | literal value unit =>
    by_cases hneg : value < 0.0
    · have hlevel : (literal value unit).level = .signed := if_pos hneg
      have hrank : (literal value unit).rank = .subtraction := if_pos hneg
      rw [hlevel]
      rcases slot with loosest | _ | _
      · have hle : ¬ loosest.level < Rank.subtraction.level := by
          rw [← hrank]
          exact of_decide_eq_false h
        cases loosest <;> first | exact Nat.le_of_ble_eq_true rfl | exact absurd (by decide) hle
      · exact Nat.le_of_ble_eq_true rfl
      · have hle : ¬ Rank.literal.level < Rank.subtraction.level := by
          rw [← hrank]
          exact of_decide_eq_false h
        exact absurd (by decide) hle
    · have hlevel : (literal value unit).level = .atom := if_neg hneg
      rw [hlevel]
      exact Nat.zero_le _
  | _ =>
    rcases slot with loosest | _ | _
    · cases loosest <;> first | exact Nat.le_of_ble_eq_true rfl | cases h
    · exact Nat.le_of_ble_eq_true rfl
    · first | exact Nat.le_of_ble_eq_true rfl | cases h

end Expr

/-! ## The text of a formula -/

namespace Expr

variable {K : Type u} [Field K] [DecidableEq K] {I : Interpretation K}

/-- The text of a formula as it was rendered stands for the formula. -/
def IsFaithful (I : Interpretation K) (e : Expr) : Prop :=
  Denotes I e.level e.render.plainText (e.value I)

theorem IsFaithful.fit {e : Expr} (h : e.IsFaithful I) (slot : Slot) :
    Denotes I slot.level (fit slot e.render).plainText (e.value I) := by
  rw [Expr.fit, needsGroup_render]
  by_cases hgroup : e.needsGroup slot = true
  · rw [if_pos hgroup]
    exact (Denotes.group h.toSum).widen (Nat.zero_le _)
  · rw [if_neg hgroup]
    exact h.widen (level_of_needsGroup (Bool.eq_false_of_not_eq_true hgroup))

theorem denotes_renderAll (slot : Slot) {es : List Expr} (h : ∀ e ∈ es, e.IsFaithful I) :
    List.Forall₂ (Denotes I slot.level) (plainTexts (renderAll slot es)) (values I es) := by
  induction es with
  | nil => exact .nil
  | cons e es ih =>
    obtain ⟨he, hes⟩ := List.forall_mem_cons.1 h
    exact .cons (he.fit slot) (ih hes)

theorem denotes_renderTerms {es : List Expr} (h : ∀ e ∈ es, e.IsFaithful I) :
    List.Forall₂ (Denotes I .sum) (plainTexts (renderTerms es)) (values I es) := by
  cases es with
  | nil => exact .nil
  | cons e es =>
    obtain ⟨he, hes⟩ := List.forall_mem_cons.1 h
    exact .cons (he.fit (.operand .subtraction)) (denotes_renderAll .laterTerm hes)

/-- The negative zero apart, the numbers printed with a minus are those below zero. -/
theorem isFaithful_literal {x : Float} {unit : Option String} (hfinite : Number.isFinite x = true)
    (hzero : (Binary.isNegative x && Binary.rank x == 0) = false) :
    (literal x unit).IsFaithful I := by
  have hneg := Binary.lt_zero_iff (Number.isFinite_iff.1 hfinite)
  by_cases hlt : x < 0.0
  · have hlevel : (literal x unit).level = .signed := if_pos hlt
    rw [IsFaithful, hlevel]
    exact .negative hfinite (hneg.1 hlt).1
  · have hlevel : (literal x unit).level = .atom := if_neg hlt
    have hpositive : Binary.isNegative x = false := by
      cases hsign : Binary.isNegative x with
      | false => rfl
      | true =>
        have hrank : Binary.rank x ≠ 0 := by
          intro hrank
          rw [hsign, hrank] at hzero
          cases hzero
        exact absurd (hneg.2 ⟨hsign, hrank⟩) hlt
    rw [IsFaithful, hlevel]
    exact .number hfinite hpositive

/-- **A well-formed formula stands for what its text stands for**, on the level of its
outermost operator. -/
theorem isFaithful {e : Expr} (h : e.isWellFormed = true) : e.IsFaithful I := by
  induction e with
  | literal value unit =>
    rw [isWellFormed, Bool.and_eq_true, Bool.not_eq_true'] at h
    exact isFaithful_literal h.1 h.2
  | quantity q => exact .identifier h
  | sum terms ih =>
    rw [isWellFormed, Bool.and_eq_true, areWellFormed_iff] at h
    have hterms := denotes_renderTerms fun e he => ih e he (h.2 e he)
    refine .sum ?_ hterms
    cases terms with
    | nil => cases h.1
    | cons e es => exact List.cons_ne_nil _ _
  | product factors ih =>
    rw [isWellFormed, Bool.and_eq_true, areWellFormed_iff] at h
    have hfactors := denotes_renderAll (.operand .multiply) fun e he => ih e he (h.2 e he)
    refine .product ?_ hfactors
    cases factors with
    | nil => cases h.1
    | cons e es => exact List.cons_ne_nil _ _
  | difference left right ihl ihr =>
    rw [isWellFormed, Bool.and_eq_true] at h
    exact .difference ((ihl h.1).fit (.operand .subtraction)) ((ihr h.2).fit (.operand .divide))
  | quotient left right ihl ihr =>
    rw [isWellFormed, Bool.and_eq_true] at h
    have hright := (ihr h.2).fit (.operand .literal)
    exact .quotient ((ihl h.1).fit (.operand .divide)) (hright.widen (Nat.le_of_ble_eq_true rfl))
  | sqrt operand ih => exact .sqrt (ih h).toSum
  | power base exponent ih => exact .power ((ih h).fit .powerBase) exponent.toInt
  | group inner ih => exact .group (ih h).toSum
  | call function argument ih => exact .call (ih h).toSum

/-- **The text of a well-formed formula denotes it**: by the infix rules it has one
reading, and under every interpretation of names, roots and functions in a field this
stands for what the formula stands for. -/
theorem text_denotes {e : Expr} (h : e.isWellFormed = true) (I : Interpretation K) :
    ∃ r, r.value I = e.value I ∧ ∀ r', ReadsText e.text r' ↔ r' = r := by
  have hfaithful : e.IsFaithful I := isFaithful h
  obtain ⟨r, hreads, hvalue⟩ := hfaithful.toSum
  refine ⟨r, hvalue, fun r' => ⟨fun hreads' => hreads'.unique hreads, ?_⟩⟩
  rintro rfl
  exact hreads

/-- A formula in which a term is negative, sums are nested and a quotient is a factor. -/
def regrouped : Expr :=
  .difference
    (.sum [.variable ⟨"a", none⟩, .sum [.number (-3.0), .product [.variable ⟨"b", none⟩,
      .quotient (.variable ⟨"c", none⟩) (.number 2.5)]]])
    (.power (.difference (.variable ⟨"x", none⟩) (.variable ⟨"x0", none⟩)) (-2))

/-- Names stand for their lengths. -/
def lengths : Interpretation ℚ where
  name n := n.length
  sqrt _ := none
  call _ := some

theorem text_denotes_regrouped : regrouped.isWellFormed = true ∧
    regrouped.text = "a + -3 + b * (c / 2.5) - (x - x0)^-2" ∧
    regrouped.value lengths = some (-13 / 5) ∧
    ∃ r, r.value lengths = regrouped.value lengths ∧ ∀ r', ReadsText regrouped.text r' ↔ r' = r :=
  ⟨by decide +kernel, by decide +kernel, by decide +kernel,
    text_denotes (by decide +kernel) lengths⟩

end Expr

end Stepwise
