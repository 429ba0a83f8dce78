import Stepwise.Catalog.Builtin
import Stepwise.Proofs.Expr.Divisors
import Stepwise.Proofs.Expr.Real

/-!
# The laws behind the catalogs

A catalog has many relations and teaches few laws: it solves each law for each of its
quantities. Read exactly, every formula is a consequence of the laws:

> `catalogs_follow`: at real numbers that satisfy the laws of a catalog, the exact value
> of every formula is the number of the quantity that it gives.

This asks of a relation that what it presumes is the case, that it does not divide by
zero, and of the time that is a root that it is not negative (`Relation.Admits`).
-/

namespace Stepwise

variable {σ : String → ℝ}

/-- Whether a relation may be used at some numbers: what it presumes holds, no divisor is
zero, and a time that is a root is not negative. -/
structure Relation.Admits (r : Relation) (σ : String → ℝ) : Prop where
  presumed : ∀ e ∈ r.presumes.entries, σ e.1 = Binary.exact e.2
  divisors : ∀ d ∈ r.formula.divisors, d.value (.real σ) ≠ some 0
  root : r.gives = Kinematics.time → (∃ operand, r.formula = .sqrt operand) → 0 ≤ σ r.gives.name

/-- Where a relation may be used, its formula has the value of its output. -/
def Relation.Follows (σ : String → ℝ) (r : Relation) : Prop :=
  r.Admits σ → r.formula.value (.real σ) = some (σ r.gives.name)

/-- A relation that divides by one quantity divides by no zero. -/
theorem Relation.Admits.ne_zero {r : Relation} (h : r.Admits σ) {q : Quantity}
    (hq : r.formula.divisors = [.variable q]) : σ q.name ≠ 0 := by
  intro hzero
  have hdivisor : (Expr.variable q).value (.real σ) ≠ some 0 :=
    h.divisors _ (hq ▸ List.mem_cons_self)
  exact hdivisor (congrArg some hzero)

/-- A relation that presumes one quantity to be zero is used where it is. -/
theorem Relation.Admits.eq_zero {r : Relation} (h : r.Admits σ) {q : Quantity}
    (hq : r.presumes.entries = [(q.name, 0.0)]) : σ q.name = 0 := by
  have hpresumed : σ q.name = Binary.exact 0.0 := h.presumed _ (hq ▸ List.mem_cons_self)
  rwa [Binary.exact_zero, Rat.cast_zero] at hpresumed

/-- A quotient of two quantities follows if its output is a factor of the first. -/
theorem Relation.follows_quotient {r : Relation} {p q : Quantity}
    (hformula : r.formula = .quotient p q) (h : σ p.name = σ r.gives.name * σ q.name) :
    r.Follows σ := by
  intro hadmits
  have hq : σ q.name ≠ 0 := hadmits.ne_zero (by rw [hformula]; rfl)
  rw [hformula, value_quotient (value_variable _) (value_variable _) hq, h,
    mul_div_cancel_right₀ _ hq]

/-- The same for a difference that is divided. -/
theorem Relation.follows_change_quotient {r : Relation} {p p' q : Quantity}
    (hformula : r.formula = .quotient (.difference p p') q)
    (h : σ p.name - σ p'.name = σ r.gives.name * σ q.name) : r.Follows σ := by
  intro hadmits
  have hq : σ q.name ≠ 0 := hadmits.ne_zero (by rw [hformula]; rfl)
  rw [hformula, value_quotient (value_change ..) (value_variable _) hq, h,
    mul_div_cancel_right₀ _ hq]

/-! ## Kinematics -/

namespace Kinematics

/-- The laws of motion under constant acceleration along an axis. -/
structure LawsAlong (σ : String → ℝ) (axis : String) : Prop where
  displacement : σ (displacement axis).name = σ (initialVelocity axis).name * σ time.name +
    1 / 2 * σ (acceleration axis).name * σ time.name ^ 2
  velocity : σ (finalVelocity axis).name =
    σ (initialVelocity axis).name + σ (acceleration axis).name * σ time.name
  force : σ (force axis).name = σ mass.name * σ (acceleration axis).name

/-- The laws along both axes, and the speeds at the start and at the end by angle. -/
structure Laws (σ : String → ℝ) : Prop where
  alongX : LawsAlong σ "x"
  alongY : LawsAlong σ "y"
  initialX : σ "vix" = σ "si" * Real.cos (radians (σ "ai"))
  initialY : σ "viy" = σ "si" * Real.sin (radians (σ "ai"))
  finalX : σ "vfx" = σ "sf" * Real.cos (radians (σ "af"))
  finalY : σ "vfy" = σ "sf" * Real.sin (radians (σ "af"))

theorem follows_alongAxis {axis : String} (h : LawsAlong σ axis) :
    ∀ r ∈ alongAxis axis, r.Follows σ := by
  have hd := h.displacement
  have hv := h.velocity
  simp only [alongAxis, List.forall_mem_cons]
  refine ⟨?displacement, ?finalVelocity, ?initialVelocity, ?change, ?atRest, ?uniform,
    List.forall_mem_nil _⟩
  case displacement =>
    intro _
    have hhalf : (Expr.quotient (.number 1.0) (.number 2.0)).value (.real σ) = some (1 / 2) :=
      value_quotient value_one value_two two_ne_zero
    simp [hhalf, hd, mul_assoc]
  case finalVelocity =>
    intro _
    simp [hv]
  case initialVelocity =>
    intro _
    simp [hv]
  case change =>
    refine Relation.follows_change_quotient rfl ?_
    rw [hv, add_sub_cancel_left, mul_comm]
  case atRest =>
    -- From rest the square of the time is twice the displacement by the acceleration.
    intro hadmits
    have ha : σ (acceleration axis).name ≠ 0 := hadmits.ne_zero rfl
    have hvi : σ (initialVelocity axis).name = 0 := hadmits.eq_zero rfl
    have ht : 0 ≤ σ time.name := hadmits.root rfl ⟨_, rfl⟩
    refine value_sqrt ?_ ht
    have hdouble : (Expr.product [.number 2.0, displacement axis]).value (.real σ) =
        some (2 * σ (displacement axis).name) := by simp
    refine (value_quotient hdouble (value_variable _) ha).trans (congrArg some ?_)
    rw [hd, hvi]
    field_simp
    ring
  case uniform =>
    -- Without acceleration the displacement is the velocity for the time.
    intro hadmits
    have ha : σ (acceleration axis).name = 0 := hadmits.eq_zero rfl
    refine Relation.follows_quotient rfl ?_ hadmits
    rw [hd, ha]
    ring

theorem follows_components (h : Laws σ) : ∀ r ∈ components, r.Follows σ := by
  simp only [components, List.forall_mem_cons]
  refine ⟨?initialX, ?initialY, ?finalX, ?finalY, List.forall_mem_nil _⟩
  case initialX =>
    intro _
    simp [initialVelocity, h.initialX]
  case initialY =>
    intro _
    simp [initialVelocity, h.initialY]
  case finalX =>
    intro _
    simp [finalVelocity, h.finalX]
  case finalY =>
    intro _
    simp [finalVelocity, h.finalY]

theorem follows_secondLaw (h : Laws σ) : ∀ r ∈ secondLaw, r.Follows σ := by
  have hx := h.alongX.force
  have hy := h.alongY.force
  simp only [secondLaw, List.forall_mem_cons]
  refine ⟨?forceX, ?forceY, ?massX, ?massY, ?accelerationX, ?accelerationY, List.forall_mem_nil _⟩
  case forceX =>
    intro _
    simp [hx]
  case forceY =>
    intro _
    simp [hy]
  case massX => exact Relation.follows_quotient rfl hx
  case massY => exact Relation.follows_quotient rfl hy
  case accelerationX => exact Relation.follows_quotient rfl (hx.trans (mul_comm ..))
  case accelerationY => exact Relation.follows_quotient rfl (hy.trans (mul_comm ..))

/-- **Kinematics follows from its laws.** -/
theorem follows_catalog (h : Laws σ) : ∀ r ∈ catalog.relations, r.Follows σ := by
  show ∀ r ∈ alongAxis "x" ++ alongAxis "y" ++ components ++ secondLaw, r.Follows σ
  rw [List.forall_mem_append, List.forall_mem_append, List.forall_mem_append]
  exact ⟨⟨⟨follows_alongAxis h.alongX, follows_alongAxis h.alongY⟩, follows_components h⟩,
    follows_secondLaw h⟩

end Kinematics

/-! ## Slopes -/

namespace Slopes

/-- The laws of a line through two points: its changes, its slope, its intercept, the
distance of the points and its angle. -/
structure Laws (σ : String → ℝ) : Prop where
  changeX : σ "Dx" = σ "xf" - σ "xi"
  changeY : σ "Dy" = σ "yf" - σ "yi"
  slope : σ "Dy" = σ "m" * σ "Dx"
  initial : σ "yi" = σ "m" * σ "xi" + σ "b"
  final : σ "yf" = σ "m" * σ "xf" + σ "b"
  distance_nonneg : 0 ≤ σ "c"
  distance : σ "c" ^ 2 = σ "Dx" ^ 2 + σ "Dy" ^ 2
  tangent : σ "m" = Real.tan (radians (σ "a"))
  angle : σ "a" = Real.arctan (σ "m") * (180 / Real.pi)

/-- The angle of a line lies between the verticals, so it has a tangent. -/
theorem Laws.cos_ne_zero (h : Laws σ) : Real.cos (radians (σ "a")) ≠ 0 := by
  have hradians : radians (σ "a") = Real.arctan (σ "m") := by
    unfold radians
    rw [h.angle]
    field_simp
  rw [hradians]
  exact (Real.cos_arctan_pos _).ne'

/-- **Slopes follow from their laws.** -/
theorem follows_catalog (h : Laws σ) : ∀ r ∈ catalog.relations, r.Follows σ := by
  simp only [catalog, List.forall_mem_cons]
  refine ⟨?changeX, ?startX, ?endX, ?changeY, ?startY, ?endY, ?slope, ?interceptAtStart,
    ?interceptAtEnd, ?changeXOfSlope, ?changeYOfSlope, ?startYOnLine, ?startXOnLine, ?endYOnLine,
    ?endXOnLine, ?distance, ?tangent, ?angle, List.forall_mem_nil _⟩
  case changeX | startX | endX =>
    intro _
    simp [h.changeX]
  case changeY | startY | endY =>
    intro _
    simp [h.changeY]
  case slope =>
    refine Relation.follows_quotient rfl ?_
    exact h.slope
  case changeXOfSlope =>
    refine Relation.follows_quotient rfl ?_
    rw [h.slope, mul_comm]
  case changeYOfSlope =>
    intro _
    simp [h.slope]
  case interceptAtStart | startYOnLine =>
    intro _
    simp [h.initial]
  case interceptAtEnd | endYOnLine =>
    intro _
    simp [h.final]
  case startXOnLine =>
    refine Relation.follows_change_quotient rfl ?_
    rw [h.initial, add_sub_cancel_right, mul_comm]
  case endXOnLine =>
    refine Relation.follows_change_quotient rfl ?_
    rw [h.final, add_sub_cancel_right, mul_comm]
  case distance =>
    intro _
    refine value_sqrt ?_ h.distance_nonneg
    simp [h.distance]
  case tangent =>
    intro _
    have hvalue := value_tan (q := ⟨"a", some "deg"⟩) h.cos_ne_zero
    rwa [← h.tangent] at hvalue
  case angle =>
    intro _
    have hvalue := @value_atan σ ⟨"m", none⟩
    rwa [← h.angle] at hvalue

end Slopes

/-! ## Both catalogs -/

/-- **The formulas of the catalogs follow from the laws that they teach.** At all real
numbers that satisfy the laws of motion, or those of a line, the exact value of every
formula of the catalog is the number of its output, where the relation may be used. -/
theorem catalogs_follow (σ : String → ℝ) :
    (Kinematics.Laws σ → ∀ r ∈ Kinematics.catalog.relations, r.Admits σ →
      r.formula.value (.real σ) = some (σ r.gives.name)) ∧
    (Slopes.Laws σ → ∀ r ∈ Slopes.catalog.relations, r.Admits σ →
      r.formula.value (.real σ) = some (σ r.gives.name)) :=
  ⟨Kinematics.follows_catalog, Slopes.follows_catalog⟩

/-- A body that gains speed along one axis. -/
noncomputable def acceleratedMotion : String → ℝ
  | "t" => 2
  | "m" => 1
  | "vix" | "si" => 3
  | "ax" | "fx" => 4
  | "vfx" | "sf" => 11
  | "dx" => 14
  | _ => 0

theorem laws_acceleratedMotion : Kinematics.Laws acceleratedMotion where
  alongX :=
    { displacement := by
        show (14 : ℝ) = 3 * 2 + 1 / 2 * 4 * 2 ^ 2
        norm_num
      velocity := by
        show (11 : ℝ) = 3 + 4 * 2
        norm_num
      force := (one_mul 4).symm }
  alongY :=
    { displacement := by
        show (0 : ℝ) = 0 * 2 + 1 / 2 * 0 * 2 ^ 2
        norm_num
      velocity := by
        show (0 : ℝ) = 0 + 0 * 2
        norm_num
      force := (one_mul 0).symm }
  initialX := by
    show (3 : ℝ) = 3 * Real.cos (0 * (Real.pi / 180))
    rw [zero_mul, Real.cos_zero, mul_one]
  initialY := by
    show (0 : ℝ) = 3 * Real.sin (0 * (Real.pi / 180))
    rw [zero_mul, Real.sin_zero, mul_zero]
  finalX := by
    show (11 : ℝ) = 11 * Real.cos (0 * (Real.pi / 180))
    rw [zero_mul, Real.cos_zero, mul_one]
  finalY := by
    show (0 : ℝ) = 11 * Real.sin (0 * (Real.pi / 180))
    rw [zero_mul, Real.sin_zero, mul_zero]

/-- Two points on a diagonal. -/
noncomputable def diagonal : String → ℝ
  | "Dx" | "Dy" | "m" | "xi" => 1
  | "xf" | "b" => 2
  | "yi" => 3
  | "yf" => 4
  | "a" => 45
  | "c" => Real.sqrt 2
  | _ => 0

theorem laws_diagonal : Slopes.Laws diagonal where
  changeX := by
    show (1 : ℝ) = 2 - 1
    norm_num
  changeY := by
    show (1 : ℝ) = 4 - 3
    norm_num
  slope := (one_mul 1).symm
  initial := by
    show (3 : ℝ) = 1 * 1 + 2
    norm_num
  final := by
    show (4 : ℝ) = 1 * 2 + 2
    norm_num
  distance_nonneg := Real.sqrt_nonneg 2
  distance := by
    show Real.sqrt 2 ^ 2 = 1 ^ 2 + 1 ^ 2
    rw [Real.sq_sqrt zero_le_two]
    norm_num
  tangent := by
    have hangle : 45 * (Real.pi / 180) = Real.pi / 4 := by ring
    show (1 : ℝ) = Real.tan (45 * (Real.pi / 180))
    rw [hangle, Real.tan_pi_div_four]
  angle := by
    show (45 : ℝ) = Real.arctan 1 * (180 / Real.pi)
    rw [Real.arctan_one]
    field_simp
    norm_num

/-- The time in which a body gains its speed, and the distance of two points. -/
theorem catalogs_follow_samples :
    (∃ r ∈ Kinematics.catalog.relations, r.gives = Kinematics.time ∧ r.Admits acceleratedMotion ∧
      r.formula.value (.real acceleratedMotion) = some 2) ∧
    ∃ r ∈ Slopes.catalog.relations, r.gives.name = "c" ∧ r.Admits diagonal ∧
      r.formula.value (.real diagonal) = some (Real.sqrt 2) := by
  constructor
  · have hmem : (Kinematics.alongAxis "x")[3] ∈ Kinematics.catalog.relations :=
      List.mem_append_left _ (List.mem_append_left _ (List.mem_append_left _ (List.getElem_mem _)))
    have hadmits : (Kinematics.alongAxis "x")[3].Admits acceleratedMotion :=
      { presumed := List.forall_mem_nil _
        divisors := by
          refine List.forall_mem_singleton.2 ?_
          show some (4 : ℝ) ≠ some 0
          norm_num
        root := by
          rintro - ⟨operand, hroot⟩
          cases hroot }
    exact ⟨_, hmem, rfl, hadmits,
      (catalogs_follow acceleratedMotion).1 laws_acceleratedMotion _ hmem hadmits⟩
  · have hmem : Slopes.catalog.relations[15] ∈ Slopes.catalog.relations := List.getElem_mem _
    have hadmits : Slopes.catalog.relations[15].Admits diagonal :=
      { presumed := List.forall_mem_nil _
        divisors := List.forall_mem_nil _
        root := fun htime => absurd htime (by decide) }
    exact ⟨_, hmem, rfl, hadmits, (catalogs_follow diagonal).2 laws_diagonal _ hmem hadmits⟩

end Stepwise
