import Stepwise.Expr.Evaluate
import Stepwise.Proofs.Bindings
import Stepwise.Proofs.Sequence

/-!
# Substitution and the faults of formulas

Operands are visited from left to right and the first fault is the fault of the
whole, so what a formula meets is what its list of names meets:

> `substitute_outcome`: substitution fails exactly on the leftmost name of the
> formula that is unbound, and says so.

What substitution gives has no names left and calls the same functions
(`substitute_ok`), so evaluation can fail afterwards only where a reference angle
is asked for (`evaluate_failsOnly`).
-/

namespace Stepwise

namespace Expr

/-! ## Induction over formulas -/

/-- Induction over formulas: what is shown of a list of operands is assumed of each
of them. -/
@[elab_as_elim, induction_eliminator]
theorem inductionOn {motive : Expr → Prop} (e : Expr)
    (literal : ∀ value unit, motive (.literal value unit))
    (quantity : ∀ q, motive (.variable q))
    (sum : ∀ terms, (∀ e ∈ terms, motive e) → motive (.sum terms))
    (product : ∀ factors, (∀ e ∈ factors, motive e) → motive (.product factors))
    (difference : ∀ left right, motive left → motive right → motive (.difference left right))
    (quotient : ∀ left right, motive left → motive right → motive (.quotient left right))
    (sqrt : ∀ operand, motive operand → motive (.sqrt operand))
    (power : ∀ base exponent, motive base → motive (.power base exponent))
    (group : ∀ inner, motive inner → motive (.group inner))
    (call : ∀ function argument, motive argument → motive (.call function argument)) :
    motive e :=
  @Expr.rec motive (fun terms => ∀ e ∈ terms, motive e)
    literal quantity sum product difference quotient sqrt power group call
    (fun _ he => absurd he List.not_mem_nil)
    (fun _ _ hhead htail => List.forall_mem_cons.2 ⟨hhead, htail⟩) e

mutual

/-- The functions that a formula calls, from left to right. -/
def functions : Expr → List AngleFunction
  | .literal .. => []
  | .variable _ => []
  | .sum terms => functionsIn terms
  | .product factors => functionsIn factors
  | .difference left right => left.functions ++ right.functions
  | .quotient left right => left.functions ++ right.functions
  | .sqrt operand => operand.functions
  | .power base _ => base.functions
  | .group inner => inner.functions
  | .call function argument => function :: argument.functions

/-- The functions that a list of operands calls. -/
def functionsIn : List Expr → List AngleFunction
  | [] => []
  | e :: rest => e.functions ++ functionsIn rest

end

/-! ## What substitution meets -/

/-- The leftmost of some names that is unbound. -/
def unbound? (b : Bindings) (names : List String) : Option String :=
  names.find? fun name => !b.contains name

/-- How a computation ends that looks up names in order: on the leftmost unbound
one, or with a result if there is none. -/
inductive Outcome {α : Type} (b : Bindings) (names : List String) : Except EvalFault α → Prop
  | ok (result : α) : unbound? b names = none → Outcome b names (.ok result)
  | error (name : String) : unbound? b names = some name → Outcome b names (.error (.unbound name))

/-- Names looked up in sequence are looked up in the order of the sequence. -/
theorem Outcome.bind {α β : Type} {b : Bindings} {before after : List String}
    {x : Except EvalFault α} {f : α → Except EvalFault β} (hx : Outcome b before x)
    (hf : ∀ a, Outcome b after (f a)) : Outcome b (before ++ after) (x >>= f) := by
  have happend : unbound? b (before ++ after) = (unbound? b before).or (unbound? b after) :=
    List.find?_append
  cases hx with
  | error name h => exact .error name (by rw [happend, h]; rfl)
  | ok a h =>
    -- The first names are all bound, so the second ones decide.
    rw [h, Option.none_or] at happend
    show Outcome b (before ++ after) (f a)
    have hfa := hf a
    generalize f a = y at hfa ⊢
    cases hfa with
    | ok z h' => exact .ok z (happend.trans h')
    | error name h' => exact .error name (happend.trans h')

/-- A last step that looks up nothing. -/
theorem Outcome.map {α β : Type} {b : Bindings} {names : List String} {x : Except EvalFault α}
    (hx : Outcome b names x) (f : α → β) :
    Outcome b names (x >>= fun a => pure (f a)) := by
  have hlast : ∀ a, Outcome b [] (pure (f a) : Except EvalFault β) := fun a => .ok (f a) rfl
  have h := hx.bind hlast
  rwa [List.append_nil] at h

theorem substituteAll_outcome {b : Bindings} {terms : List Expr}
    (ih : ∀ e ∈ terms, Outcome b e.occurrences (e.substitute b)) :
    Outcome b (occurrencesIn terms) (substituteAll b terms) := by
  induction terms with
  | nil => exact .ok _ rfl
  | cons e terms ihterms =>
    rw [substituteAll, occurrencesIn]
    obtain ⟨hhead, htail⟩ := List.forall_mem_cons.1 ih
    exact hhead.bind fun e' => (ihterms htail).map (e' :: ·)

/-- **Substitution fails exactly on the leftmost unbound name.** -/
theorem substitute_outcome (b : Bindings) (e : Expr) :
    Outcome b e.occurrences (e.substitute b) := by
  induction e with
  | literal value unit => exact .ok _ rfl
  | quantity q =>
    rw [substitute, occurrences]
    cases hq : b.get? q.name with
    | some value => exact .ok _ (by simp [unbound?, Bindings.contains, hq])
    | none => exact .error _ (by simp [unbound?, Bindings.contains, hq])
  | sum terms ih => exact (substituteAll_outcome ih).map _
  | product factors ih => exact (substituteAll_outcome ih).map _
  | difference left right ihl ihr => exact ihl.bind fun _ => ihr.map _
  | quotient left right ihl ihr => exact ihl.bind fun _ => ihr.map _
  | sqrt operand ih => exact ih.map _
  | power base exponent ih => exact ih.map _
  | group inner ih => exact ih.map _
  | call function argument ih => exact ih.map _

/-- A formula whose names are all bound can be substituted. -/
theorem exists_substitute {b : Bindings} {e : Expr}
    (h : ∀ name ∈ e.occurrences, b.contains name = true) : ∃ e', e.substitute b = .ok e' := by
  have houtcome := substitute_outcome b e
  cases hsub : e.substitute b with
  | ok e' => exact ⟨e', rfl⟩
  | error fault =>
    rw [hsub] at houtcome
    cases houtcome with
    | error name hfind =>
      have hunbound := List.find?_some hfind
      rw [h name (List.mem_of_find?_eq_some hfind)] at hunbound
      cases hunbound

/-! ## What substitution gives -/

/-- What is said of each operand holds of the list of them. -/
theorem substituteAll_ok {b : Bindings} {terms terms' : List Expr}
    (ih : ∀ e ∈ terms, ∀ e', e.substitute b = .ok e' →
      e'.occurrences = [] ∧ e'.functions = e.functions)
    (h : substituteAll b terms = .ok terms') :
    occurrencesIn terms' = [] ∧ functionsIn terms' = functionsIn terms := by
  induction terms generalizing terms' with
  | nil =>
    rw [substituteAll] at h
    cases h
    exact ⟨rfl, rfl⟩
  | cons e terms ihterms =>
    rw [substituteAll] at h
    obtain ⟨e', rest, he, hrest, rfl⟩ := bind_bind_pure_eq_ok.1 h
    obtain ⟨hhead, htail⟩ := List.forall_mem_cons.1 ih
    obtain ⟨hnames, hcalls⟩ := hhead e' he
    obtain ⟨hnames', hcalls'⟩ := ihterms htail hrest
    simp only [occurrencesIn, functionsIn, hnames, hnames', hcalls, hcalls', List.append_nil,
      and_self]

/-- **A substituted formula is ground**, and calls the functions that the formula calls. -/
theorem substitute_ok {b : Bindings} {e e' : Expr} (h : e.substitute b = .ok e') :
    e'.occurrences = [] ∧ e'.functions = e.functions := by
  induction e generalizing e' with
  | literal value unit =>
    rw [substitute] at h
    cases h
    exact ⟨rfl, rfl⟩
  | quantity q =>
    rw [substitute] at h
    split at h
    · cases h
      exact ⟨rfl, rfl⟩
    · cases h
  | sum terms ih =>
    obtain ⟨terms', hterms, rfl⟩ := bind_pure_eq_ok.1 h
    exact substituteAll_ok (fun e he e' => ih e he) hterms
  | product factors ih =>
    obtain ⟨factors', hfactors, rfl⟩ := bind_pure_eq_ok.1 h
    exact substituteAll_ok (fun e he e' => ih e he) hfactors
  | difference left right ihl ihr =>
    obtain ⟨left', right', hleft, hright, rfl⟩ := bind_bind_pure_eq_ok.1 h
    obtain ⟨hnames, hcalls⟩ := ihl hleft
    obtain ⟨hnames', hcalls'⟩ := ihr hright
    simp only [occurrences, functions, hnames, hnames', hcalls, hcalls', List.append_nil, and_self]
  | quotient left right ihl ihr =>
    obtain ⟨left', right', hleft, hright, rfl⟩ := bind_bind_pure_eq_ok.1 h
    obtain ⟨hnames, hcalls⟩ := ihl hleft
    obtain ⟨hnames', hcalls'⟩ := ihr hright
    simp only [occurrences, functions, hnames, hnames', hcalls, hcalls', List.append_nil, and_self]
  | sqrt operand ih =>
    obtain ⟨operand', hoperand, rfl⟩ := bind_pure_eq_ok.1 h
    obtain ⟨hnames, hcalls⟩ := ih hoperand
    exact ⟨hnames, hcalls⟩
  | power base exponent ih =>
    obtain ⟨base', hbase, rfl⟩ := bind_pure_eq_ok.1 h
    obtain ⟨hnames, hcalls⟩ := ih hbase
    exact ⟨hnames, hcalls⟩
  | group inner ih =>
    obtain ⟨inner', hinner, rfl⟩ := bind_pure_eq_ok.1 h
    obtain ⟨hnames, hcalls⟩ := ih hinner
    exact ⟨hnames, hcalls⟩
  | call function argument ih =>
    obtain ⟨argument', hargument, rfl⟩ := bind_pure_eq_ok.1 h
    obtain ⟨hnames, hcalls⟩ := ih hargument
    exact ⟨hnames, congrArg (function :: ·) hcalls⟩

/-! ## What substitution reads -/

theorem substituteAll_congr {b b' : Bindings} {terms : List Expr}
    (ih : ∀ e ∈ terms, (∀ name ∈ e.occurrences, b.get? name = b'.get? name) →
      e.substitute b = e.substitute b')
    (h : ∀ name ∈ occurrencesIn terms, b.get? name = b'.get? name) :
    substituteAll b terms = substituteAll b' terms := by
  induction terms with
  | nil => rfl
  | cons e terms ihterms =>
    obtain ⟨hhead, htail⟩ := List.forall_mem_cons.1 ih
    rw [occurrencesIn, List.forall_mem_append] at h
    rw [substituteAll, substituteAll, hhead h.1, ihterms htail h.2]

/-- **Substitution reads the names of a formula and nothing else.** -/
theorem substitute_congr {b b' : Bindings} {e : Expr}
    (h : ∀ name ∈ e.occurrences, b.get? name = b'.get? name) :
    e.substitute b = e.substitute b' := by
  induction e with
  | literal value unit => rfl
  | quantity q =>
    rw [substitute, substitute, h q.name (List.mem_singleton.2 rfl)]
  | sum terms ih => rw [substitute, substitute, substituteAll_congr ih h]
  | product factors ih => rw [substitute, substitute, substituteAll_congr ih h]
  | difference left right ihl ihr =>
    rw [occurrences, List.forall_mem_append] at h
    rw [substitute, substitute, ihl h.1, ihr h.2]
  | quotient left right ihl ihr =>
    rw [occurrences, List.forall_mem_append] at h
    rw [substitute, substitute, ihl h.1, ihr h.2]
  | sqrt operand ih => rw [substitute, substitute, ih h]
  | power base exponent ih => rw [substitute, substitute, ih h]
  | group inner ih => rw [substitute, substitute, ih h]
  | call function argument ih => rw [substitute, substitute, ih h]

/-! ## What evaluation meets -/

/-- The faults that evaluation can end in: on a name, or at a reference angle. -/
inductive CanFail (names : List String) (calls : List AngleFunction) : EvalFault → Prop
  | unsubstituted (name : String) : name ∈ names → CanFail names calls (.unsubstituted name)
  | axisAngle (degrees : Float) : .reference ∈ calls → CanFail names calls (.axisAngle degrees)

theorem CanFail.mono {names names' : List String} {calls calls' : List AngleFunction}
    {fault : EvalFault} (h : CanFail names calls fault) (hnames : names ⊆ names')
    (hcalls : calls ⊆ calls') : CanFail names' calls' fault := by
  cases h with
  | unsubstituted name h => exact .unsubstituted name (hnames h)
  | axisAngle degrees h => exact .axisAngle degrees (hcalls h)

/-- A computation has no faults but those that some names and calls explain. -/
def FailsOnly {α : Type} (names : List String) (calls : List AngleFunction)
    (x : Except EvalFault α) : Prop :=
  ∀ fault, x = .error fault → CanFail names calls fault

namespace FailsOnly

variable {α β : Type} {names names' : List String} {calls calls' : List AngleFunction}
  {x : Except EvalFault α}

theorem of_ok (a : α) : FailsOnly names calls (.ok a) := by
  intro fault h
  cases h

/-- In sequence either computation can fail. -/
theorem bind {f : α → Except EvalFault β} (hx : FailsOnly names calls x)
    (hf : ∀ a, FailsOnly names' calls' (f a)) :
    FailsOnly (names ++ names') (calls ++ calls') (x >>= f) := by
  intro fault h
  rcases bind_eq_error.1 h with h | ⟨a, -, h⟩
  · exact (hx fault h).mono (List.subset_append_left ..) (List.subset_append_left ..)
  · exact (hf a fault h).mono (List.subset_append_right ..) (List.subset_append_right ..)

theorem map (hx : FailsOnly names calls x) (f : α → β) :
    FailsOnly names calls (x >>= fun a => pure (f a)) := by
  intro fault h
  rcases bind_eq_error.1 h with h | ⟨a, -, h⟩
  · exact hx fault h
  · cases h

end FailsOnly

/-- Operands whose values are accumulated from left to right. -/
theorem accumulate_failsOnly {op : Float → Float → Float}
    {go : Float → List Expr → Except EvalFault Float} (hnil : ∀ total, go total [] = .ok total)
    (hcons : ∀ total e rest, go total (e :: rest) = e.evaluate >>= fun v => go (op total v) rest)
    {terms : List Expr} (ih : ∀ e ∈ terms, FailsOnly e.occurrences e.functions e.evaluate)
    (total : Float) : FailsOnly (occurrencesIn terms) (functionsIn terms) (go total terms) := by
  induction terms generalizing total with
  | nil =>
    rw [hnil]
    exact .of_ok total
  | cons e terms ihterms =>
    rw [hcons]
    obtain ⟨hhead, htail⟩ := List.forall_mem_cons.1 ih
    exact hhead.bind fun v => ihterms htail (op total v)

/-- Of the functions only the reference angle has no value somewhere. -/
theorem apply_failsOnly (function : AngleFunction) (x : Float) :
    FailsOnly [] [function] (function.apply x) := by
  intro fault h
  cases function with
  | reference =>
    unfold AngleFunction.apply at h
    dsimp only at h
    split at h
    · cases h
    · cases h
      exact .axisAngle x (List.mem_singleton.2 rfl)
  | sin => cases h
  | cos => cases h
  | tan => cases h
  | atan => cases h

/-- **Evaluation fails on a name or at a reference angle**, and nowhere else. -/
theorem evaluate_failsOnly (e : Expr) : FailsOnly e.occurrences e.functions e.evaluate := by
  induction e with
  | literal value unit => exact .of_ok value
  | quantity q =>
    intro fault h
    rw [evaluate] at h
    cases h
    exact .unsubstituted q.name (List.mem_singleton.2 rfl)
  | sum terms ih => exact accumulate_failsOnly (fun _ => rfl) (fun _ _ _ => rfl) ih 0.0
  | product factors ih => exact accumulate_failsOnly (fun _ => rfl) (fun _ _ _ => rfl) ih 1.0
  | difference left right ihl ihr => exact ihl.bind fun _ => ihr.map _
  | quotient left right ihl ihr => exact ihl.bind fun _ => ihr.map _
  | sqrt operand ih => exact ih.map _
  | power base exponent ih => exact ih.map _
  | group inner ih => exact ih
  | call function argument ih =>
    -- The argument is evaluated first, but the call stands before those in it.
    intro fault h
    refine (ih.bind (apply_failsOnly function) fault h).mono ?_ ?_
    · rw [List.append_nil]
      exact List.Subset.refl _
    · exact (List.perm_append_singleton function argument.functions).subset

end Expr

end Stepwise
