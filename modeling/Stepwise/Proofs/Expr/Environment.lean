import Mathlib.Data.List.Forall2
import Stepwise.Proofs.Expr.Substitution

/-!
# Formulas in an environment

A formula has its value without substitution as well: each name stands for what an
environment gives it, and nothing is written in its place. The two ways agree wherever
the first can be gone:

> `Filled.evaluateWith_eq`: what comes of a formula by filling in bound values has, in
> every environment, the value of the formula among those bindings.

Which formulas can be filled in is a matter of their names alone, and so is the fault of
those that cannot (`substitute_reads`).
-/

namespace Stepwise

/-- What a name stands for among some bindings. -/
def Bindings.environment (b : Bindings) (name : String) : Except EvalFault Float :=
  match b.get? name with
  | some value => .ok value
  | none => .error (.unbound name)

namespace Expr

mutual

/-- The value of a formula whose names stand for what an environment gives them. -/
def evaluateWith (env : String → Except EvalFault Float) : Expr → Except EvalFault Float
  | .literal value _ => .ok value
  | .variable q => env q.name
  | .sum terms => accumulateWith env (· + ·) 0.0 terms
  | .product factors => accumulateWith env (· * ·) 1.0 factors
  | .difference left right => do
    let l ← left.evaluateWith env
    let r ← right.evaluateWith env
    return l - r
  | .quotient left right => do
    let l ← left.evaluateWith env
    let r ← right.evaluateWith env
    return l / r
  | .sqrt operand => do return (← operand.evaluateWith env).sqrt
  | .power base exponent => do return integerPower (← base.evaluateWith env) exponent
  | .group inner => inner.evaluateWith env
  | .call function argument => do function.apply (← argument.evaluateWith env)

/-- Put the values of some operands to a total by an operation, from left to right. -/
def accumulateWith (env : String → Except EvalFault Float) (op : Float → Float → Float)
    (total : Float) : List Expr → Except EvalFault Float
  | [] => .ok total
  | e :: rest => do accumulateWith env op (op total (← e.evaluateWith env)) rest

end

/-- The value of a formula among some bindings. -/
def evaluateIn (b : Bindings) (e : Expr) : Except EvalFault Float := e.evaluateWith b.environment

/-! ## Evaluation without bindings -/

/-- Operands whose values are accumulated from left to right. -/
theorem accumulate_eq_accumulateWith {env : String → Except EvalFault Float}
    {op : Float → Float → Float} {go : Float → List Expr → Except EvalFault Float}
    (hnil : ∀ total, go total [] = .ok total)
    (hcons : ∀ total e rest, go total (e :: rest) = e.evaluate >>= fun v => go (op total v) rest)
    {es : List Expr} (h : ∀ e ∈ es, e.evaluate = e.evaluateWith env) (total : Float) :
    go total es = accumulateWith env op total es := by
  induction es generalizing total with
  | nil => rw [hnil, accumulateWith]
  | cons e es ih =>
    obtain ⟨he, hes⟩ := List.forall_mem_cons.1 h
    rw [hcons, accumulateWith, he]
    exact congrArg (e.evaluateWith env >>= ·) (funext fun v => ih hes (op total v))

/-- Evaluation is evaluation in the environment that gives no name a value. -/
theorem evaluate_eq_evaluateWith (e : Expr) :
    e.evaluate = e.evaluateWith fun name => .error (.unsubstituted name) := by
  induction e with
  | literal value unit => rfl
  | quantity q => rfl
  | sum terms ih => exact accumulate_eq_accumulateWith (fun _ => rfl) (fun _ _ _ => rfl) ih 0.0
  | product factors ih => exact accumulate_eq_accumulateWith (fun _ => rfl) (fun _ _ _ => rfl) ih 1.0
  | difference left right ihl ihr => rw [evaluate, evaluateWith, ihl, ihr]
  | quotient left right ihl ihr => rw [evaluate, evaluateWith, ihl, ihr]
  | sqrt operand ih => rw [evaluate, evaluateWith, ih]
  | power base exponent ih => rw [evaluate, evaluateWith, ih]
  | group inner ih => rw [evaluate, evaluateWith, ih]
  | call function argument ih => rw [evaluate, evaluateWith, ih]

/-! ## Formulas with values filled in -/

/-- The second formula is the first with the bound value, under the unit of the quantity,
in the place of each quantity. -/
inductive Filled (b : Bindings) : Expr → Expr → Prop
  | literal (value : Float) (unit : Option String) :
      Filled b (.literal value unit) (.literal value unit)
  | quantity {q : Quantity} {value : Float} (h : b.get? q.name = some value) :
      Filled b (.variable q) (.literal value q.unit)
  | sum {terms terms' : List Expr} (h : List.Forall₂ (Filled b) terms terms') :
      Filled b (.sum terms) (.sum terms')
  | product {factors factors' : List Expr} (h : List.Forall₂ (Filled b) factors factors') :
      Filled b (.product factors) (.product factors')
  | difference {left right left' right' : Expr} (hleft : Filled b left left')
      (hright : Filled b right right') : Filled b (.difference left right) (.difference left' right')
  | quotient {left right left' right' : Expr} (hleft : Filled b left left')
      (hright : Filled b right right') : Filled b (.quotient left right) (.quotient left' right')
  | sqrt {operand operand' : Expr} (h : Filled b operand operand') :
      Filled b (.sqrt operand) (.sqrt operand')
  | power {base base' : Expr} (exponent : Int32) (h : Filled b base base') :
      Filled b (.power base exponent) (.power base' exponent)
  | group {inner inner' : Expr} (h : Filled b inner inner') : Filled b (.group inner) (.group inner')
  | call (function : AngleFunction) {argument argument' : Expr} (h : Filled b argument argument') :
      Filled b (.call function argument) (.call function argument')

theorem forall₂_filled {b : Bindings} {es es' : List Expr}
    (ih : ∀ e ∈ es, ∀ e', e.substitute b = .ok e' → Filled b e e')
    (h : substituteAll b es = .ok es') : List.Forall₂ (Filled b) es es' := by
  induction es generalizing es' with
  | nil =>
    rw [substituteAll] at h
    cases h
    exact .nil
  | cons e es ihes =>
    rw [substituteAll] at h
    obtain ⟨e', rest, he, hrest, rfl⟩ := bind_bind_pure_eq_ok.1 h
    obtain ⟨hhead, htail⟩ := List.forall_mem_cons.1 ih
    exact .cons (hhead e' he) (ihes htail hrest)

/-- **Substitution fills in the bound values** and changes nothing else. -/
theorem filled_of_substitute {b : Bindings} {e e' : Expr} (h : e.substitute b = .ok e') :
    Filled b e e' := by
  induction e generalizing e' with
  | literal value unit =>
    rw [substitute] at h
    cases h
    exact .literal value unit
  | quantity q =>
    rw [substitute] at h
    split at h
    · next value hvalue =>
      cases h
      exact .quantity hvalue
    · cases h
  | sum terms ih =>
    obtain ⟨terms', hterms, rfl⟩ := bind_pure_eq_ok.1 h
    exact .sum (forall₂_filled (fun e he e' => ih e he) hterms)
  | product factors ih =>
    obtain ⟨factors', hfactors, rfl⟩ := bind_pure_eq_ok.1 h
    exact .product (forall₂_filled (fun e he e' => ih e he) hfactors)
  | difference left right ihl ihr =>
    obtain ⟨left', right', hleft, hright, rfl⟩ := bind_bind_pure_eq_ok.1 h
    exact .difference (ihl hleft) (ihr hright)
  | quotient left right ihl ihr =>
    obtain ⟨left', right', hleft, hright, rfl⟩ := bind_bind_pure_eq_ok.1 h
    exact .quotient (ihl hleft) (ihr hright)
  | sqrt operand ih =>
    obtain ⟨operand', hoperand, rfl⟩ := bind_pure_eq_ok.1 h
    exact .sqrt (ih hoperand)
  | power base exponent ih =>
    obtain ⟨base', hbase, rfl⟩ := bind_pure_eq_ok.1 h
    exact .power exponent (ih hbase)
  | group inner ih =>
    obtain ⟨inner', hinner, rfl⟩ := bind_pure_eq_ok.1 h
    exact .group (ih hinner)
  | call function argument ih =>
    obtain ⟨argument', hargument, rfl⟩ := bind_pure_eq_ok.1 h
    exact .call function (ih hargument)

section Value

variable {b : Bindings} {env : String → Except EvalFault Float}

theorem accumulateWith_of_filled {op : Float → Float → Float} {es es' : List Expr}
    (ih : ∀ e ∈ es, ∀ e', Filled b e e' → e'.evaluateWith env = e.evaluateIn b)
    (h : List.Forall₂ (Filled b) es es') (total : Float) :
    accumulateWith env op total es' = accumulateWith b.environment op total es := by
  induction h generalizing total with
  | nil => rfl
  | @cons e e' es es' he hes ihes =>
    obtain ⟨hhead, htail⟩ := List.forall_mem_cons.1 ih
    rw [accumulateWith, accumulateWith, hhead e' he]
    exact congrArg (e.evaluateIn b >>= ·) (funext fun v => ihes htail (op total v))

/-- **The value with the values filled in is the value among the bindings**, whatever the
environment: there is no name left to look up in it. -/
theorem Filled.evaluateWith_eq {e e' : Expr} (h : Filled b e e') :
    e'.evaluateWith env = e.evaluateIn b := by
  unfold evaluateIn
  induction e generalizing e' with
  | literal value unit =>
    cases h
    rfl
  | quantity q =>
    cases h with
    | quantity hvalue =>
      rw [evaluateWith, evaluateWith, Bindings.environment, hvalue]
  | sum terms ih =>
    cases h with
    | sum hterms => exact accumulateWith_of_filled (fun e he e' => ih e he) hterms 0.0
  | product factors ih =>
    cases h with
    | product hfactors => exact accumulateWith_of_filled (fun e he e' => ih e he) hfactors 1.0
  | difference left right ihl ihr =>
    cases h with
    | difference hleft hright => rw [evaluateWith, evaluateWith, ihl hleft, ihr hright]
  | quotient left right ihl ihr =>
    cases h with
    | quotient hleft hright => rw [evaluateWith, evaluateWith, ihl hleft, ihr hright]
  | sqrt operand ih =>
    cases h with
    | sqrt hoperand => rw [evaluateWith, evaluateWith, ih hoperand]
  | power base exponent ih =>
    cases h with
    | power _ hbase => rw [evaluateWith, evaluateWith, ih hbase]
  | group inner ih =>
    cases h with
    | group hinner => rw [evaluateWith, evaluateWith, ih hinner]
  | call function argument ih =>
    cases h with
    | call _ hargument => rw [evaluateWith, evaluateWith, ih hargument]

/-- To substitute and then to evaluate is to evaluate among the bindings. -/
theorem evaluate_of_substitute {e e' : Expr} (h : e.substitute b = .ok e') :
    e'.evaluate = e.evaluateIn b :=
  (evaluate_eq_evaluateWith e').trans (filled_of_substitute h).evaluateWith_eq

end Value

/-! ## What substitution depends on -/

/-- The leftmost unbound name of a formula is the first of its names that is unbound. -/
theorem unbound?_occurrences (b : Bindings) (e : Expr) :
    unbound? b e.occurrences = e.names.find? fun name => !b.contains name :=
  (find?_eraseDups _ _).symm

theorem exists_substitute_iff {b : Bindings} {e : Expr} :
    (∃ e', e.substitute b = .ok e') ↔ ∀ name ∈ e.names, ∃ value, b.get? name = some value := by
  simp only [names, List.mem_eraseDups, ← Bindings.contains_iff]
  refine ⟨?_, exists_substitute⟩
  rintro ⟨e', h⟩
  have houtcome := substitute_outcome b e
  rw [h] at houtcome
  cases houtcome with
  | ok _ hnone =>
    intro name hname
    simpa using List.find?_eq_none.1 hnone name hname

/-- Substitution fails on the first unbound name of the formula. -/
theorem substitute_eq_error {b : Bindings} {e : Expr} {fault : EvalFault}
    (h : e.substitute b = .error fault) :
    ∃ name, (e.names.find? fun n => !b.contains n) = some name ∧ fault = .unbound name := by
  have houtcome := substitute_outcome b e
  rw [h] at houtcome
  cases houtcome with
  | error name hname => exact ⟨name, unbound?_occurrences b e ▸ hname, rfl⟩

/-- **Substitution reads the names of a formula.** It succeeds exactly if all of them are
bound. The result is ground and the formula with the values filled in, and has the value
or the fault that the formula has among the bindings, a fault being that of an angle on an
axis. Otherwise the first name that is unbound is the fault. Bindings that agree on the
names of the formula give the same. -/
theorem substitute_reads (b : Bindings) (e : Expr) :
    ((∃ e', e.substitute b = .ok e') ↔ ∀ name ∈ e.names, ∃ value, b.get? name = some value) ∧
    (∀ e', e.substitute b = .ok e' → e'.isGround = true ∧ Filled b e e' ∧
      e'.evaluate = e.evaluateIn b ∧
      ∀ fault, e'.evaluate = .error fault → ∃ degrees, fault = .axisAngle degrees) ∧
    (∀ fault, e.substitute b = .error fault → ∃ name,
      (e.names.find? fun n => !b.contains n) = some name ∧ fault = .unbound name) ∧
    ∀ b', (∀ name ∈ e.names, b'.get? name = b.get? name) → e.substitute b' = e.substitute b := by
  refine ⟨exists_substitute_iff, fun e' h => ?_, fun fault => substitute_eq_error, fun b' h => ?_⟩
  · have hnames := (substitute_ok h).1
    refine ⟨?_, filled_of_substitute h, evaluate_of_substitute h, fun fault hfault => ?_⟩
    · rw [isGround, hnames, List.isEmpty_nil]
    · -- The other fault is a name that is left, and none is.
      cases evaluate_failsOnly e' fault hfault with
      | unsubstituted name hname =>
        rw [hnames] at hname
        cases hname
      | axisAngle degrees _ => exact ⟨degrees, rfl⟩
  · exact substitute_congr fun name hname => h name (List.mem_eraseDups.2 hname)

/-- A distance over the reference angle of an angle that stands twice. -/
def overReference : Expr :=
  .quotient (.sum [.variable ⟨"d", some "m"⟩, .variable ⟨"a", none⟩])
    (.call .reference (.variable ⟨"a", some "deg"⟩))

/-- With an angle on an axis the filled formula and the formula fail alike, and without the
angle the substitution fails on it. -/
theorem substitute_reads_overReference :
    (∃ e', overReference.substitute (.ofList [("a", 90.0), ("d", 2.0)]) = .ok e' ∧
      e'.isGround = true ∧ Filled (.ofList [("a", 90.0), ("d", 2.0)]) overReference e' ∧
      e'.evaluate = overReference.evaluateIn (.ofList [("a", 90.0), ("d", 2.0)]) ∧
      ∀ fault, e'.evaluate = .error fault → ∃ degrees, fault = .axisAngle degrees) ∧
    (∃ name, (overReference.names.find? fun n => !(Bindings.ofList [("d", 2.0)]).contains n) =
      some name ∧ EvalFault.unbound "a" = .unbound name) ∧
    overReference.substitute (.ofList [("d", 2.0), ("t", 1.0)]) =
      overReference.substitute (.ofList [("d", 2.0)]) := by
  obtain ⟨hiff, hok, -⟩ := substitute_reads (.ofList [("a", 90.0), ("d", 2.0)]) overReference
  obtain ⟨-, -, herror, hcongr⟩ := substitute_reads (.ofList [("d", 2.0)]) overReference
  refine ⟨?_, herror _ rfl, hcongr _ ?_⟩
  · obtain ⟨e', he'⟩ := hiff.2 (by
      rw [show overReference.names = ["d", "a"] from rfl]
      exact List.forall_mem_cons.2 ⟨⟨_, rfl⟩, List.forall_mem_singleton.2 ⟨_, rfl⟩⟩)
    exact ⟨e', he', hok e' he'⟩
  · rw [show overReference.names = ["d", "a"] from rfl]
    exact List.forall_mem_cons.2 ⟨rfl, List.forall_mem_singleton.2 rfl⟩

end Expr

end Stepwise
