import Stepwise.Proofs.Expr.Divisors
import Stepwise.Proofs.Solution.Check
import Stepwise.Proofs.Solution.Rounding

/-!
# Divisions in a solution

The catalogs that come with the solver divide by the constant two, or by one of the
inputs of a relation and then last, apart from a root. Nothing keeps such a relation
from being used where that input is zero. But then its result shows it:

> `Move.divisor_of_solve`: a divisor in a step with a finite result is not zero.

One relation never meets a zero divisor. The time of a uniform motion is the
displacement by the velocity; for a velocity of zero the relation for a start at rest,
which is declared before it, can be used (`Kinematics.velocity_ne_zero`). It is the only
one: every other relation that divides by an input is used where that input is zero
(`Registry.exists_dividesByZero`).
-/

namespace Stepwise

/-! ## Relations that divide last -/

/-- Whether a formula is the number two. -/
def Expr.isTwo : Expr → Bool
  | .literal value none => decide (value = 2.0)
  | _ => false

theorem Expr.eq_of_isTwo {e : Expr} (h : e.isTwo = true) : e = .number 2.0 := by
  unfold isTwo at h
  split at h
  · rw [of_decide_eq_true h]
    rfl
  · cases h

/-- Whether a relation divides by one of its inputs and nothing else, as the last
operation or under a root, or divides by two only. -/
def Relation.dividesLast (r : Relation) : Bool :=
  match r.formula with
  | .quotient num (.variable q) => num.divisors.isEmpty && r.takes.contains q
  | .sqrt (.quotient num (.variable q)) => num.divisors.isEmpty && r.takes.contains q
  | formula => formula.divisors.all Expr.isTwo

/-- A quotient, or the root of one. -/
inductive Expr.EndsInQuotient (num den : Expr) : Expr → Prop
  | quotient : EndsInQuotient num den (.quotient num den)
  | root : EndsInQuotient num den (.sqrt (.quotient num den))

theorem Relation.divisor_cases {r : Relation} (h : r.dividesLast = true) {d : Expr}
    (hd : d ∈ r.formula.divisors) :
    d = .number 2.0 ∨ ∃ q ∈ r.takes, d = .variable q ∧
      ∃ num, Expr.EndsInQuotient num (.variable q) r.formula := by
  unfold dividesLast at h
  split at h
  · next num q hformula =>
    obtain ⟨hnone, htakes⟩ := Bool.and_eq_true_iff.1 h
    rw [hformula, Expr.divisors, List.isEmpty_iff.1 hnone] at hd
    rw [hformula]
    exact .inr ⟨q, List.contains_iff_mem.1 htakes, List.mem_singleton.1 hd, num, .quotient⟩
  · next num q hformula =>
    obtain ⟨hnone, htakes⟩ := Bool.and_eq_true_iff.1 h
    rw [hformula, Expr.divisors, Expr.divisors, List.isEmpty_iff.1 hnone] at hd
    rw [hformula]
    exact .inr ⟨q, List.contains_iff_mem.1 htakes, List.mem_singleton.1 hd, num, .root⟩
  · exact .inl (Expr.eq_of_isTwo (List.all_eq_true.1 h d hd))

namespace Expr

theorem EndsInQuotient.substitute {num den e e' : Expr} {b : Bindings} {value : Float}
    {unit : Option String} (h : EndsInQuotient num den e) (hsubstitute : e.substitute b = .ok e')
    (hden : den.substitute b = .ok (.literal value unit)) :
    ∃ num', EndsInQuotient num' (.literal value unit) e' := by
  cases h with
  | quotient =>
    obtain ⟨num', den', -, hden', rfl⟩ := bind_bind_pure_eq_ok.1 hsubstitute
    rw [hden] at hden'
    cases hden'
    exact ⟨num', .quotient⟩
  | root =>
    obtain ⟨e', hquotient, rfl⟩ := bind_pure_eq_ok.1 hsubstitute
    obtain ⟨num', den', -, hden', rfl⟩ := bind_bind_pure_eq_ok.1 hquotient
    rw [hden] at hden'
    cases hden'
    exact ⟨num', .root⟩

/-- What ends in a quotient by zero has no finite value. -/
theorem EndsInQuotient.not_finite {num e : Expr} {x value : Float} {unit : Option String}
    (h : EndsInQuotient num (.literal x unit) e) (hzero : (x == 0.0) = true)
    (hevaluate : e.evaluate = .ok value) : Number.isFinite value = false := by
  cases h with
  | quotient =>
    obtain ⟨l, r, -, hr, rfl⟩ := bind_bind_pure_eq_ok.1 hevaluate
    cases hr
    exact Binary.isFinite_div_zero l hzero
  | root =>
    obtain ⟨y, hquotient, rfl⟩ := bind_pure_eq_ok.1 hevaluate
    obtain ⟨l, r, -, hr, rfl⟩ := bind_bind_pure_eq_ok.1 hquotient
    cases hr
    exact Binary.isFinite_sqrt (Binary.isFinite_div_zero l hzero)

end Expr

namespace Move

variable {relation : Relation} {held : Bindings} {s : Solved}

/-- **A divisor in a step is two or the value of an input, and not zero if the result is
finite.** -/
theorem divisor_of_solve (hlast : relation.dividesLast = true)
    (happlicable : relation.isApplicable held = true) (hsolve : solve relation held = .ok s)
    {d : Expr} (hd : d ∈ s.substituted.divisors) :
    (d = .number 2.0 ∨ ∃ g ∈ s.given, d = .literal g.value g.quantity.unit) ∧
      ∃ v, d.evaluate = .ok v ∧ (Number.isFinite s.result = true → (v == 0.0) = false) := by
  obtain ⟨substituted, value, hsubstitute, hevaluate, rfl⟩ := solve_eq_ok_iff.1 hsolve
  obtain ⟨d₀, hd₀, hvalue⟩ := Expr.exists_divisor_of_substitute hsubstitute hd
  rcases Relation.divisor_cases hlast hd₀ with rfl | ⟨q, hq, rfl, num, hends⟩
  · cases hvalue
    exact ⟨.inl rfl, 2.0, rfl, fun _ => by decide⟩
  · obtain ⟨x, hx⟩ := Bindings.contains_iff.1 ((Relation.isApplicable_iff.1 happlicable).2.1 q hq)
    have hliteral : (Expr.variable q).substitute held = .ok (.literal x q.unit) := by
      rw [Expr.substitute, hx]
    rw [hliteral] at hvalue
    cases hvalue
    refine ⟨.inr ⟨⟨q, x⟩, List.mem_filterMap.2 ⟨q, hq, by rw [hx]; rfl⟩, rfl⟩, x, rfl, ?_⟩
    intro hfinite
    rw [← Bool.not_eq_true]
    intro hzero
    obtain ⟨num', hends'⟩ := hends.substitute hsubstitute hliteral
    have hinfinite := Binary.isFinite_roundResult (hends'.not_finite hzero hevaluate)
    exact Bool.noConfusion (hfinite.symm.trans hinfinite)

end Move

/-! ## The catalogs at hand -/

/-- Every relation that comes with the solver divides last. -/
theorem dividesLast_builtin {c : Catalog} (h : c ∈ Registry.builtin.catalogs) {r : Relation}
    (hr : r ∈ c.relations) : r.dividesLast = true := by
  have hall : Registry.builtin.catalogs.all (·.relations.all Relation.dividesLast) = true := by
    decide +kernel
  exact List.all_eq_true.1 (List.all_eq_true.1 hall c h) r hr

namespace Kinematics

variable {held : Bindings} {relation : Relation} {axis axis' : String}

/-- Of the relations along an axis the one for a start at rest comes before the one for a
uniform motion, which is therefore not used where the velocity is zero. -/
theorem ne_zero_of_alongAxis
    (hfind : (alongAxis axis).find? (·.isApplicable held) = some relation)
    (hformula : relation.formula = .quotient (displacement axis') (initialVelocity axis')) :
    (held.get? (initialVelocity axis').name == some 0.0) = false := by
  simp only [alongAxis, List.find?_cons_eq_some, List.find?_nil] at hfind
  rcases hfind with ⟨-, rfl⟩ | ⟨-, ⟨-, rfl⟩ | ⟨-, ⟨-, rfl⟩ | ⟨-, ⟨-, rfl⟩ | ⟨-, ⟨-, rfl⟩ |
    ⟨hatRest, ⟨huniform, rfl⟩ | ⟨-, hnone⟩⟩⟩⟩⟩⟩
  · cases hformula
  · cases hformula
  · cases hformula
  · cases hformula
  · cases hformula
  · rw [← Bool.not_eq_true]
    intro hzero
    have hvelocity : Expr.variable (initialVelocity axis) = .variable (initialVelocity axis') :=
      (Expr.quotient.inj hformula).2
    rw [← Expr.variable.inj hvelocity] at hzero
    -- All that the relation for a start at rest takes and presumes is there.
    obtain ⟨hunbound, hbound, hpresumes⟩ := Relation.isApplicable_iff.1 huniform
    have hacceleration : held.contains (acceleration axis).name = true := by
      obtain ⟨value, hvalue, -⟩ := get?_beq_some.1 (hpresumes (_, 0.0) List.mem_cons_self)
      exact Bindings.contains_iff.2 ⟨value, hvalue⟩
    rw [Bool.not_eq_true', ← Bool.not_eq_true] at hatRest
    refine hatRest (Relation.isApplicable_iff.2 ⟨hunbound, ?_, ?_⟩)
    · intro q hq
      rcases List.mem_pair.1 hq with rfl | rfl
      · exact hbound _ List.mem_cons_self
      · exact hacceleration
    · exact List.forall_mem_singleton.2 hzero
  · cases hnone

/-- Whether a formula divides metres by metres per second. -/
def isTimeOfMotion : Expr → Bool
  | .quotient (.variable d) (.variable v) => d.unit == some "m" && v.unit == some "m/s"
  | _ => false

theorem ne_timeOfMotion {relations : List Relation}
    (hnone : relations.all (!isTimeOfMotion ·.formula) = true) (hmem : relation ∈ relations) :
    relation.formula ≠ .quotient (displacement axis) (initialVelocity axis) := by
  intro hformula
  have hfalse := List.all_eq_true.1 hnone relation hmem
  rw [hformula] at hfalse
  cases hfalse

/-- **The time of a uniform motion is not taken from a velocity of zero.** -/
theorem velocity_ne_zero {c : Catalog} (hc : c ∈ Registry.builtin.catalogs)
    (hfind : c.relations.find? (·.isApplicable held) = some relation)
    (hformula : relation.formula = .quotient (displacement axis) (initialVelocity axis)) :
    (held.get? (initialVelocity axis).name == some 0.0) = false := by
  rcases Registry.mem_registerAll hc with hc | hc
  · cases hc
  simp only [List.mem_cons, List.not_mem_nil, or_false] at hc
  rcases hc with rfl | rfl | rfl
  · have hrelations : catalog.relations =
        alongAxis "x" ++ (alongAxis "y" ++ (components ++ secondLaw)) := by
      show alongAxis "x" ++ alongAxis "y" ++ components ++ secondLaw = _
      simp only [List.append_assoc]
    rw [hrelations, List.find?_append, List.find?_append, Option.or_eq_some_iff,
      Option.or_eq_some_iff] at hfind
    rcases hfind with hfind | ⟨-, hfind | ⟨-, hfind⟩⟩
    · exact ne_zero_of_alongAxis hfind hformula
    · exact ne_zero_of_alongAxis hfind hformula
    · exact absurd hformula (ne_timeOfMotion (by decide) (List.mem_of_find?_eq_some hfind))
  · exact absurd hformula (ne_timeOfMotion (by decide) (List.mem_of_find?_eq_some hfind))
  · exact absurd hformula (ne_timeOfMotion (by decide) (List.mem_of_find?_eq_some hfind))

/-- What the time of a uniform motion divides by is the velocity. -/
theorem divisor_of_timeOfMotion {s : Solved} (hsolve : Move.solve relation held = .ok s)
    (hformula : relation.formula = .quotient (displacement axis) (initialVelocity axis))
    {d : Expr} (hd : d ∈ s.substituted.divisors) {v : Float} (hv : d.evaluate = .ok v) :
    held.get? (initialVelocity axis).name = some v := by
  obtain ⟨substituted, value, hsubstitute, -, rfl⟩ := Move.solve_eq_ok_iff.1 hsolve
  obtain ⟨d₀, hd₀, hvalue⟩ := Expr.exists_divisor_of_substitute hsubstitute hd
  rw [hformula] at hd₀
  obtain rfl := List.mem_singleton.1 hd₀
  rw [Expr.substitute] at hvalue
  split at hvalue
  · next x hx =>
    cases hvalue
    cases hv
    exact hx
  · cases hvalue

end Kinematics

/-! ## Session lines -/

namespace Registry

variable {line : String} {steps : List Step} {s : Solved}

/-- **What a solved step divides by** is the constant two, or the value that it shows for
one of its inputs. If its result is finite then no divisor is zero. The time of a uniform
motion is never taken by a division by zero. -/
theorem solve_divisors (h : builtin.solve line = .ok steps) (hs : .solved s ∈ steps) :
    ∀ d ∈ s.substituted.divisors,
      (d = .number 2.0 ∨ ∃ g ∈ s.given, d = .literal g.value g.quantity.unit) ∧
        ∃ v, d.evaluate = .ok v ∧ (Number.isFinite s.result = true → (v == 0.0) = false) ∧
          ∀ axis, s.equation =
              .quotient (Kinematics.displacement axis) (Kinematics.initialVelocity axis) →
            (v == 0.0) = false := by
  obtain ⟨c, hc, relation, held, hfind, hsolve⟩ := exists_relation_of_solved h hs
  have hlast := dividesLast_builtin hc (List.mem_of_find?_eq_some hfind)
  have happlicable := List.find?_some hfind
  intro d hd
  obtain ⟨hdivisor, v, hv, hfinite⟩ := Move.divisor_of_solve hlast happlicable hsolve hd
  refine ⟨hdivisor, v, hv, hfinite, fun axis hequation => ?_⟩
  have hformula : s.equation = relation.formula := by
    obtain ⟨_, _, -, -, rfl⟩ := Move.solve_eq_ok_iff.1 hsolve
    rfl
  rw [hformula] at hequation
  have hvelocity := Kinematics.divisor_of_timeOfMotion hsolve hequation hd hv
  have hne := Kinematics.velocity_ne_zero hc hfind hequation
  rw [hvelocity] at hne
  exact hne

theorem exists_solved_of_shows {r : Registry} {place : Nat} {test : Solved → Bool}
    (h : r.shows line place (·.solved?.any test) = true) :
    ∃ steps s, r.solve line = .ok steps ∧ .solved s ∈ steps ∧ test s = true := by
  obtain ⟨steps, before, step, after, hsolve, hsplit, -, hstep⟩ := exists_split_of_shows h
  cases step with
  | solved s => exact ⟨steps, s, hsolve, hsplit ▸ List.mem_append_right _ List.mem_cons_self, hstep⟩
  | error message => cases hstep
  | hint hint => cases hstep
  | summary values => cases hstep

/-- A slope, whose divisor is the difference that the line says. -/
theorem solve_divisors_slopes : ∃ steps s d v,
    builtin.solve "!slopes Dx=3 Dy=4 xi=1" = .ok steps ∧ .solved s ∈ steps ∧
      d ∈ s.substituted.divisors ∧ d.evaluate = .ok v ∧ Number.isFinite s.result = true ∧
      (v == 0.0) = false := by
  have hshows : builtin.shows "!slopes Dx=3 Dy=4 xi=1" 1 (·.solved?.any fun s =>
      decide (s.substituted.divisors.length = 1) && Number.isFinite s.result) = true := by
    decide +kernel
  obtain ⟨steps, s, hsolve, hs, htest⟩ := exists_solved_of_shows hshows
  obtain ⟨hone, hfinite⟩ := Bool.and_eq_true_iff.1 htest
  obtain ⟨d, hdivisors⟩ := List.length_eq_one_iff.1 (of_decide_eq_true hone)
  have hd : d ∈ s.substituted.divisors := hdivisors ▸ List.mem_cons_self
  obtain ⟨-, v, hv, hne, -⟩ := solve_divisors hsolve hs d hd
  exact ⟨steps, s, d, v, hsolve, hs, hd, hv, hfinite, hne hfinite⟩

/-- **A relation may divide by zero**: nothing keeps a time from being the change of
velocity by an acceleration of zero. -/
theorem time_dividesByZero : ∃ steps s d v,
    builtin.solve "!kinematics @no-implicit vix=1 vfx=2 ax=0" = .ok steps ∧
      (∀ e ∈ (Session.read "!kinematics @no-implicit vix=1 vfx=2 ax=0").session.values.entries,
        Number.isFinite e.2 = true) ∧
      .solved s ∈ steps ∧ d ∈ s.substituted.divisors ∧ d.evaluate = .ok v ∧ (v == 0.0) = true := by
  have hshows : builtin.shows "!kinematics @no-implicit vix=1 vfx=2 ax=0" 0 (·.solved?.any fun s =>
      s.substituted.divisors.any (·.evaluate.toOption.any (· == 0.0))) = true := by decide +kernel
  have hfinite : ((Session.read "!kinematics @no-implicit vix=1 vfx=2 ax=0").session.values.entries.all
      fun e => Number.isFinite e.2) = true := by decide +kernel
  obtain ⟨steps, s, hsolve, hs, htest⟩ := exists_solved_of_shows hshows
  obtain ⟨d, hd, hzero⟩ := List.any_eq_true.1 htest
  obtain ⟨v, hv, hzero⟩ := (Option.any_eq_true ..).1 hzero
  have hv : d.evaluate = .ok v := by
    cases hevaluate : d.evaluate with
    | error fault =>
      rw [hevaluate] at hv
      cases hv
    | ok v' =>
      rw [hevaluate] at hv
      exact congrArg Except.ok (Option.some.inj hv)
  exact ⟨steps, s, d, v, hsolve, List.all_eq_true.1 hfinite, hs, hd, hv, hzero⟩

theorem exists_solved_of_any {r : Registry} {test : Solved → Bool}
    (h : (r.solve line).toOption.any (·.any (·.solved?.any test)) = true) :
    ∃ steps s, r.solve line = .ok steps ∧ .solved s ∈ steps ∧ test s = true := by
  cases hsolve : r.solve line with
  | error fault =>
    rw [hsolve] at h
    cases h
  | ok steps =>
    rw [hsolve] at h
    obtain ⟨step, hstep, htest⟩ := List.any_eq_true.1 h
    cases step with
    | solved s => exact ⟨steps, s, rfl, hstep, htest⟩
    | error message => cases htest
    | hint hint => cases htest
    | summary values => cases htest

/-- The line that turns default values off and sets all that a relation takes or presumes
to zero. -/
def zeroLine (catalog : String) (relation : Relation) : String :=
  "!" ++ catalog ++ " @no-implicit" ++ String.join
    ((relation.takes.map (·.name) ++ relation.presumes.entries.map (·.1)).map (" " ++ · ++ "=0"))

/-- Whether a step is the use of a relation, divides by zero, and has no finite result. -/
def dividesByZero (relation : Relation) (s : Solved) : Bool :=
  s.title == relation.title && s.unknown == relation.gives &&
    s.given.map (·.quantity) == relation.takes && !Number.isFinite s.result &&
    s.substituted.divisors.any (·.evaluate.toOption.any (· == 0.0))

/-- **No other relation is kept from dividing by zero**: each that divides by an input, and
is not the time of a uniform motion, is used where all that it takes is zero. -/
theorem exists_dividesByZero {c : Catalog} (hc : c ∈ builtin.catalogs) {relation : Relation}
    (hrelation : relation ∈ c.relations)
    (hdivides : relation.formula.divisors.any (!·.isTwo) = true)
    (hmotion : Kinematics.isTimeOfMotion relation.formula = false) :
    ∃ steps s, builtin.solve (zeroLine c.name relation) = .ok steps ∧ .solved s ∈ steps ∧
      dividesByZero relation s = true := by
  have hall : (builtin.catalogs.all fun c => c.relations.all fun relation =>
      !relation.formula.divisors.any (!·.isTwo) || Kinematics.isTimeOfMotion relation.formula ||
        (builtin.solve (zeroLine c.name relation)).toOption.any
          (·.any (·.solved?.any (dividesByZero relation)))) = true := by decide +kernel
  have hused := List.all_eq_true.1 (List.all_eq_true.1 hall c hc) relation hrelation
  rw [hdivides, hmotion, Bool.not_true, Bool.or_false, Bool.false_or] at hused
  exact exists_solved_of_any hused

end Registry

end Stepwise
