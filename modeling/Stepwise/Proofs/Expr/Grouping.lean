import Mathlib.Data.List.Forall2
import Stepwise.Expr.Render
import Stepwise.Proofs.Expr.Substitution

/-!
# The groups that rendering adds

Rendering adds groups and changes nothing else:

> `ungroup_render`: without its groups, the rendered formula is the formula without its
> groups.

Names, values and substitutions do not see groups (`occurrences_ungroup`,
`evaluate_ungroup`, `substitute_ungroup`), so they do not see the rendering.

A group is added around an operand that has no delimiters of its own, and nowhere else
(`groupsAdded_render`). An operand that got its group needs no other, which is why a
second rendering adds nothing (`render_render`).
-/

namespace Stepwise

namespace Expr

/-! ## Formulas without groups -/

mutual

/-- A formula without its groups. -/
def ungroup : Expr → Expr
  | .literal value unit => .literal value unit
  | .variable q => .variable q
  | .sum terms => .sum (ungroupAll terms)
  | .product factors => .product (ungroupAll factors)
  | .difference left right => .difference left.ungroup right.ungroup
  | .quotient left right => .quotient left.ungroup right.ungroup
  | .sqrt operand => .sqrt operand.ungroup
  | .power base exponent => .power base.ungroup exponent
  | .group inner => inner.ungroup
  | .call function argument => .call function argument.ungroup

/-- Operands without their groups. -/
def ungroupAll : List Expr → List Expr
  | [] => []
  | e :: rest => e.ungroup :: ungroupAll rest

end

theorem ungroup_fit (slot : Slot) (e : Expr) : (fit slot e).ungroup = e.ungroup := by
  unfold fit
  split
  · rfl
  · rfl

theorem ungroupAll_renderAll (slot : Slot) {es : List Expr}
    (h : ∀ e ∈ es, e.render.ungroup = e.ungroup) :
    ungroupAll (renderAll slot es) = ungroupAll es := by
  induction es with
  | nil => rfl
  | cons e es ih =>
    obtain ⟨he, hes⟩ := List.forall_mem_cons.1 h
    rw [renderAll, ungroupAll, ungroupAll, ungroup_fit, he, ih hes]

theorem ungroupAll_renderTerms {es : List Expr} (h : ∀ e ∈ es, e.render.ungroup = e.ungroup) :
    ungroupAll (renderTerms es) = ungroupAll es := by
  cases es with
  | nil => rfl
  | cons e es =>
    obtain ⟨he, hes⟩ := List.forall_mem_cons.1 h
    rw [renderTerms, ungroupAll, ungroupAll, ungroup_fit, he, ungroupAll_renderAll _ hes]

/-- **Rendering adds groups and changes nothing else.** -/
theorem ungroup_render (e : Expr) : e.render.ungroup = e.ungroup := by
  induction e with
  | literal value unit => rfl
  | quantity q => rfl
  | sum terms ih => rw [render, ungroup, ungroup, ungroupAll_renderTerms ih]
  | product factors ih => rw [render, ungroup, ungroup, ungroupAll_renderAll _ ih]
  | difference left right ihl ihr =>
    rw [render, ungroup, ungroup, ungroup_fit, ungroup_fit, ihl, ihr]
  | quotient left right ihl ihr =>
    rw [render, ungroup, ungroup, ungroup_fit, ungroup_fit, ihl, ihr]
  | sqrt operand ih => rw [render, ungroup, ungroup, ih]
  | power base exponent ih => rw [render, ungroup, ungroup, ungroup_fit, ih]
  | group inner ih => rw [render, ungroup, ungroup, ih]
  | call function argument ih => rw [render, ungroup, ungroup, ih]

/-! ## What does not see groups -/

theorem occurrencesIn_ungroupAll {es : List Expr}
    (h : ∀ e ∈ es, e.ungroup.occurrences = e.occurrences) :
    occurrencesIn (ungroupAll es) = occurrencesIn es := by
  induction es with
  | nil => rfl
  | cons e es ih =>
    obtain ⟨he, hes⟩ := List.forall_mem_cons.1 h
    rw [ungroupAll, occurrencesIn, occurrencesIn, he, ih hes]

/-- Groups name nothing. -/
theorem occurrences_ungroup (e : Expr) : e.ungroup.occurrences = e.occurrences := by
  induction e with
  | literal value unit => rfl
  | quantity q => rfl
  | sum terms ih => exact occurrencesIn_ungroupAll ih
  | product factors ih => exact occurrencesIn_ungroupAll ih
  | difference left right ihl ihr => rw [ungroup, occurrences, occurrences, ihl, ihr]
  | quotient left right ihl ihr => rw [ungroup, occurrences, occurrences, ihl, ihr]
  | sqrt operand ih => exact ih
  | power base exponent ih => exact ih
  | group inner ih => exact ih
  | call function argument ih => exact ih

/-- Operands whose values are accumulated from left to right. -/
theorem accumulate_ungroupAll {op : Float → Float → Float}
    {go : Float → List Expr → Except EvalFault Float}
    (hcons : ∀ total e rest, go total (e :: rest) = e.evaluate >>= fun v => go (op total v) rest)
    {es : List Expr} (h : ∀ e ∈ es, e.ungroup.evaluate = e.evaluate) (total : Float) :
    go total (ungroupAll es) = go total es := by
  induction es generalizing total with
  | nil => rfl
  | cons e es ih =>
    obtain ⟨he, hes⟩ := List.forall_mem_cons.1 h
    rw [ungroupAll, hcons, hcons, he]
    exact congrArg (e.evaluate >>= ·) (funext fun v => ih hes (op total v))

/-- Groups change no value and no fault. -/
theorem evaluate_ungroup (e : Expr) : e.ungroup.evaluate = e.evaluate := by
  induction e with
  | literal value unit => rfl
  | quantity q => rfl
  | sum terms ih => exact accumulate_ungroupAll (fun _ _ _ => rfl) ih 0.0
  | product factors ih => exact accumulate_ungroupAll (fun _ _ _ => rfl) ih 1.0
  | difference left right ihl ihr => rw [ungroup, evaluate, evaluate, ihl, ihr]
  | quotient left right ihl ihr => rw [ungroup, evaluate, evaluate, ihl, ihr]
  | sqrt operand ih => rw [ungroup, evaluate, evaluate, ih]
  | power base exponent ih => rw [ungroup, evaluate, evaluate, ih]
  | group inner ih => rw [ungroup, evaluate, ih]
  | call function argument ih => rw [ungroup, evaluate, evaluate, ih]

section Substitution

variable {α β γ : Type}

/-- What is made from a part that is passed through a function on the way. -/
theorem map_bind_make {pass : α → α} {through : γ → γ} {x : Except EvalFault α} {make make' : α → γ}
    (hmake : ∀ a, make' (pass a) = through (make a)) :
    (x.map pass >>= fun a => pure (make' a)) = (x >>= fun a => pure (make a)).map through := by
  cases x with
  | error fault => rfl
  | ok a => exact congrArg Except.ok (hmake a)

/-- What is made from two parts that are passed through functions on the way. -/
theorem map_bind_map_bind_make {pass : α → α} {pass' : β → β} {through : γ → γ}
    {x : Except EvalFault α} {y : Except EvalFault β} {make : α → β → γ}
    (hmake : ∀ a b, make (pass a) (pass' b) = through (make a b)) :
    (x.map pass >>= fun a => y.map pass' >>= fun b => pure (make a b)) =
      (x >>= fun a => y >>= fun b => pure (make a b)).map through := by
  cases x with
  | error fault => rfl
  | ok a => exact map_bind_make (hmake a)

theorem substituteAll_ungroupAll {b : Bindings} {es : List Expr}
    (h : ∀ e ∈ es, e.ungroup.substitute b = (e.substitute b).map ungroup) :
    substituteAll b (ungroupAll es) = (substituteAll b es).map ungroupAll := by
  induction es with
  | nil => rfl
  | cons e es ih =>
    obtain ⟨he, hes⟩ := List.forall_mem_cons.1 h
    rw [ungroupAll, substituteAll, substituteAll, he, ih hes]
    exact map_bind_map_bind_make fun _ _ => rfl

/-- What is substituted without groups is what is substituted, without its groups. -/
theorem substitute_ungroup (b : Bindings) (e : Expr) :
    e.ungroup.substitute b = (e.substitute b).map ungroup := by
  induction e with
  | literal value unit => rfl
  | quantity q =>
    rw [ungroup, substitute]
    cases b.get? q.name with
    | none => rfl
    | some value => rfl
  | sum terms ih =>
    rw [ungroup, substitute, substitute, substituteAll_ungroupAll ih]
    exact map_bind_make fun _ => rfl
  | product factors ih =>
    rw [ungroup, substitute, substitute, substituteAll_ungroupAll ih]
    exact map_bind_make fun _ => rfl
  | difference left right ihl ihr =>
    rw [ungroup, substitute, substitute, ihl, ihr]
    exact map_bind_map_bind_make fun _ _ => rfl
  | quotient left right ihl ihr =>
    rw [ungroup, substitute, substitute, ihl, ihr]
    exact map_bind_map_bind_make fun _ _ => rfl
  | sqrt operand ih =>
    rw [ungroup, substitute, substitute, ih]
    exact map_bind_make fun _ => rfl
  | power base exponent ih =>
    rw [ungroup, substitute, substitute, ih]
    exact map_bind_make fun _ => rfl
  | group inner ih =>
    -- The group around the result goes as well.
    rw [ungroup, substitute, ih]
    cases inner.substitute b with
    | error fault => rfl
    | ok inner' => rfl
  | call function argument ih =>
    rw [ungroup, substitute, substitute, ih]
    exact map_bind_make fun _ => rfl

end Substitution

/-- **Rendering is transparent**: up to groups the rendered formula is the formula, with
the same names in the same order and the same value or fault; and with any bindings it
is substituted as the formula is, up to groups, or fails as the formula does. -/
theorem render_transparent (e : Expr) :
    e.render.ungroup = e.ungroup ∧ e.render.names = e.names ∧ e.render.evaluate = e.evaluate ∧
      ∀ b, (e.render.substitute b).map ungroup = (e.substitute b).map ungroup := by
  refine ⟨ungroup_render e, ?_, ?_, fun b => ?_⟩
  · rw [names, names, ← occurrences_ungroup, ungroup_render, occurrences_ungroup]
  · rw [← evaluate_ungroup, ungroup_render, evaluate_ungroup]
  · rw [← substitute_ungroup, ungroup_render, substitute_ungroup]

/-! ## A second rendering -/

theorem fit_fit (slot : Slot) (e : Expr) : fit slot (fit slot e) = fit slot e := by
  by_cases hneeds : e.needsGroup slot = true
  · have hfit : fit slot e = .group e := if_pos hneeds
    rw [hfit]
    rfl
  · have hfit : fit slot e = e := if_neg hneeds
    rw [hfit, hfit]

theorem render_fit (slot : Slot) {e : Expr} (h : e.render.render = e.render) :
    (fit slot e.render).render = fit slot e.render := by
  unfold fit
  split
  · rw [render, h]
  · exact h

theorem renderAll_renderAll (slot : Slot) {es : List Expr}
    (h : ∀ e ∈ es, e.render.render = e.render) :
    renderAll slot (renderAll slot es) = renderAll slot es := by
  induction es with
  | nil => rfl
  | cons e es ih =>
    obtain ⟨he, hes⟩ := List.forall_mem_cons.1 h
    rw [renderAll, renderAll, render_fit slot he, fit_fit, ih hes]

theorem renderTerms_renderTerms {es : List Expr} (h : ∀ e ∈ es, e.render.render = e.render) :
    renderTerms (renderTerms es) = renderTerms es := by
  cases es with
  | nil => rfl
  | cons e es =>
    obtain ⟨he, hes⟩ := List.forall_mem_cons.1 h
    rw [renderTerms, renderTerms, render_fit _ he, fit_fit, renderAll_renderAll _ hes]

/-- **A second rendering adds nothing.** -/
theorem render_render (e : Expr) : e.render.render = e.render := by
  induction e with
  | literal value unit => rfl
  | quantity q => rfl
  | sum terms ih => rw [render, render, renderTerms_renderTerms ih]
  | product factors ih => rw [render, render, renderAll_renderAll _ ih]
  | difference left right ihl ihr =>
    rw [render, render, render_fit _ ihl, render_fit _ ihr, fit_fit, fit_fit]
  | quotient left right ihl ihr =>
    rw [render, render, render_fit _ ihl, render_fit _ ihr, fit_fit, fit_fit]
  | sqrt operand ih => rw [render, render, ih]
  | power base exponent ih => rw [render, render, render_fit _ ih, fit_fit]
  | group inner ih => rw [render, render, ih]
  | call function argument ih => rw [render, render, ih]

/-! ## Where groups are added -/

/-- Whether a formula is made of operands, or is a negative number, and has no
delimiters of its own. -/
def isOpen : Expr → Bool
  | .literal value _ => value < 0.0
  | .variable _ | .sqrt _ | .group _ | .call .. => false
  | .sum _ | .product _ | .difference .. | .quotient .. | .power .. => true

mutual

/-- The second formula is the first with groups added around operands of sums, products,
differences, quotients and powers. -/
inductive GroupsAdded : Expr → Expr → Prop
  | literal (value : Float) (unit : Option String) :
      GroupsAdded (.literal value unit) (.literal value unit)
  | quantity (q : Quantity) : GroupsAdded (.variable q) (.variable q)
  | sum {terms terms' : List Expr} (h : List.Forall₂ OperandGrouped terms terms') :
      GroupsAdded (.sum terms) (.sum terms')
  | product {factors factors' : List Expr} (h : List.Forall₂ OperandGrouped factors factors') :
      GroupsAdded (.product factors) (.product factors')
  | difference {left right left' right' : Expr} (hleft : OperandGrouped left left')
      (hright : OperandGrouped right right') :
      GroupsAdded (.difference left right) (.difference left' right')
  | quotient {left right left' right' : Expr} (hleft : OperandGrouped left left')
      (hright : OperandGrouped right right') :
      GroupsAdded (.quotient left right) (.quotient left' right')
  | sqrt {operand operand' : Expr} (h : GroupsAdded operand operand') :
      GroupsAdded (.sqrt operand) (.sqrt operand')
  | power {base base' : Expr} (exponent : Int32) (h : OperandGrouped base base') :
      GroupsAdded (.power base exponent) (.power base' exponent)
  | group {inner inner' : Expr} (h : GroupsAdded inner inner') :
      GroupsAdded (.group inner) (.group inner')
  | call (function : AngleFunction) {argument argument' : Expr}
      (h : GroupsAdded argument argument') :
      GroupsAdded (.call function argument) (.call function argument')

/-- An operand with groups added inside, and one around it if it is open. -/
inductive OperandGrouped : Expr → Expr → Prop
  | bare {e e' : Expr} (h : GroupsAdded e e') : OperandGrouped e e'
  | grouped {e e' : Expr} (h : GroupsAdded e e') (hopen : e'.isOpen = true) :
      OperandGrouped e (.group e')

end

/-- What needs a group is open, whatever the slot. -/
theorem isOpen_of_needsGroup {e : Expr} {slot : Slot} (h : e.needsGroup slot = true) :
    e.isOpen = true := by
  cases e with
  | literal value unit =>
    by_cases hneg : value < 0.0
    · exact decide_eq_true hneg
    · -- The rank of the literals is the tightest, so it fits every slot.
      have hrank : (literal value unit).rank = .literal := if_neg hneg
      cases slot with
      | operand loosest =>
        have hlt : loosest.level < (literal value unit).rank.level := of_decide_eq_true h
        rw [hrank] at hlt
        exact absurd hlt (Nat.not_lt_zero _)
      | laterTerm => exact absurd (of_decide_eq_true h) hneg
      | powerBase =>
        have hlt : Rank.literal.level < (literal value unit).rank.level := of_decide_eq_true h
        rw [hrank] at hlt
        exact absurd hlt (Nat.lt_irrefl _)
  | «variable» q =>
    cases slot with
    | operand loosest =>
      have hlt : loosest.level < Rank.literal.level := of_decide_eq_true h
      exact absurd hlt (Nat.not_lt_zero _)
    | laterTerm => cases h
    | powerBase => cases h
  | sum terms => rfl
  | product factors => rfl
  | difference left right => rfl
  | quotient left right => rfl
  | sqrt operand => cases h
  | power base exponent => rfl
  | group inner => cases h
  | call function argument => cases h

theorem operandGrouped_fit {e e' : Expr} (slot : Slot) (h : GroupsAdded e e') :
    OperandGrouped e (fit slot e') := by
  unfold fit
  split
  · next hneeds => exact .grouped h (isOpen_of_needsGroup hneeds)
  · exact .bare h

theorem operandGrouped_renderAll (slot : Slot) {es : List Expr}
    (h : ∀ e ∈ es, GroupsAdded e e.render) :
    List.Forall₂ OperandGrouped es (renderAll slot es) := by
  induction es with
  | nil => exact .nil
  | cons e es ih =>
    obtain ⟨he, hes⟩ := List.forall_mem_cons.1 h
    exact .cons (operandGrouped_fit slot he) (ih hes)

theorem operandGrouped_renderTerms {es : List Expr} (h : ∀ e ∈ es, GroupsAdded e e.render) :
    List.Forall₂ OperandGrouped es (renderTerms es) := by
  cases es with
  | nil => exact .nil
  | cons e es =>
    obtain ⟨he, hes⟩ := List.forall_mem_cons.1 h
    exact .cons (operandGrouped_fit _ he) (operandGrouped_renderAll _ hes)

/-- **Rendering adds groups around open operands only.** -/
theorem groupsAdded_render (e : Expr) : GroupsAdded e e.render := by
  induction e with
  | literal value unit => exact .literal value unit
  | quantity q => exact .quantity q
  | sum terms ih => exact .sum (operandGrouped_renderTerms ih)
  | product factors ih => exact .product (operandGrouped_renderAll _ ih)
  | difference left right ihl ihr =>
    exact .difference (operandGrouped_fit _ ihl) (operandGrouped_fit _ ihr)
  | quotient left right ihl ihr =>
    exact .quotient (operandGrouped_fit _ ihl) (operandGrouped_fit _ ihr)
  | sqrt operand ih => exact .sqrt ih
  | power base exponent ih => exact .power exponent (operandGrouped_fit _ ih)
  | group inner ih => exact .group ih
  | call function argument ih => exact .call function ih

/-- **Rendering is stable**: a second rendering changes neither the formula nor its text,
and the groups of the first stand around operands of sums, products, differences,
quotients and powers, of which none is a group, a root, a call, a name or a number that
is not negative. -/
theorem render_stable (e : Expr) :
    e.render.render = e.render ∧ e.render.text = e.text ∧ GroupsAdded e e.render :=
  ⟨render_render e, congrArg plainText (render_render e), groupsAdded_render e⟩

end Expr

end Stepwise
