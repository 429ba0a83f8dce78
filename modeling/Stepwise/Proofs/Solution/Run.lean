import Stepwise.Proofs.Bindings
import Stepwise.Proofs.Expr.Substitution
import Stepwise.Solution.Solve

/-!
# Runs of a derivation

`Run imports assuming b steps final` says that moves lead from `b` to `final` and
leave these steps. A derivation is a run until there is no move, or until a move
fails:

> `derive_eq_ok_iff`: a derivation gives some steps and values exactly if a run
> leads to them and no move is left there.

What every move preserves, every run preserves by induction; what a session line
says is a run between remarks (see the trace of a session line).
-/

namespace Stepwise

/-! ## One move -/

/-- The next move is an applicable relation, or the default of an unbound name. -/
theorem nextMove?_cases {imports : List Catalog} {assuming : Bool} {b : Bindings} {m : Move}
    (h : nextMove? imports assuming b = some m) :
    (∃ catalog relation, m = .fire catalog relation ∧ (catalog, relation) ∈ relationsOf imports ∧
      relation.isApplicable b = true) ∨
    (∃ name value, m = .assume name value ∧ (name, value) ∈ implicitsOf imports ∧
      b.contains name = false ∧ assuming = true ∧ nextRelation? imports b = none) := by
  rcases Option.or_eq_some_iff.1 h with h | ⟨hnone, h⟩
  · obtain ⟨⟨catalog, relation⟩, hfind, rfl⟩ := Option.map_eq_some_iff.1 h
    have happlicable := List.find?_some hfind
    exact .inl ⟨catalog, relation, rfl, List.mem_of_find?_eq_some hfind, happlicable⟩
  · cases assuming with
    | false => cases h
    | true =>
      obtain ⟨⟨name, value⟩, hfind, rfl⟩ := Option.map_eq_some_iff.1 h
      have hunbound := List.find?_some hfind
      rw [Bool.not_eq_true'] at hunbound
      exact .inr ⟨name, value, rfl, List.mem_of_find?_eq_some hfind, hunbound, rfl, hnone⟩

/-- A move that uses a relation uses the first that can be used. -/
theorem nextRelation?_of_fire {imports : List Catalog} {assuming : Bool} {b : Bindings}
    {catalog : String} {relation : Relation}
    (h : nextMove? imports assuming b = some (.fire catalog relation)) :
    nextRelation? imports b = some (.fire catalog relation) := by
  rcases Option.or_eq_some_iff.1 h with h | ⟨-, h⟩
  · exact h
  · cases assuming with
    | false => cases h
    | true =>
      obtain ⟨found, -, heq⟩ := Option.map_eq_some_iff.1 h
      cases heq

/-- A relation of some imports is a relation of one of them. -/
theorem mem_relationsOf {imports : List Catalog} {catalog : String} {relation : Relation} :
    (catalog, relation) ∈ relationsOf imports ↔
      ∃ c ∈ imports, c.name = catalog ∧ relation ∈ c.relations := by
  unfold relationsOf
  rw [List.mem_flatMap]
  constructor
  · rintro ⟨c, hc, hmem⟩
    obtain ⟨r, hr, heq⟩ := List.mem_map.1 hmem
    obtain ⟨rfl, rfl⟩ := Prod.mk.inj heq
    exact ⟨c, hc, rfl, hr⟩
  · rintro ⟨c, hc, rfl, hr⟩
    exact ⟨c, hc, List.mem_map.2 ⟨relation, hr, rfl⟩⟩

/-- The name that a move binds is unbound before. -/
theorem contains_target {imports : List Catalog} {assuming : Bool} {b : Bindings} {m : Move}
    (h : nextMove? imports assuming b = some m) : b.contains m.target = false := by
  have hpending := (List.mem_filter.1 (nextMove?_target h)).2
  rwa [Bool.not_eq_true'] at hpending

namespace Move

/-- A used relation leaves its texts and quantities, the values of its inputs, its
formula with the bound values, and the rounded value of that. -/
theorem solve_eq_ok_iff {relation : Relation} {b : Bindings} {s : Solved} :
    solve relation b = .ok s ↔
      ∃ substituted value, relation.formula.substitute b = .ok substituted ∧
        substituted.evaluate = .ok value ∧
        { title := relation.title
          description := relation.description
          given := relation.takes.filterMap fun q => (b.get? q.name).map (⟨q, ·⟩)
          unknown := relation.gives
          equation := relation.formula
          result := roundResult value
          substituted } = s := by
  unfold solve
  constructor
  · intro h
    obtain ⟨substituted, hsubstitute, h⟩ := bind_eq_ok.1 h
    obtain ⟨value, hevaluate, h⟩ := bind_pure_eq_ok.1 h
    exact ⟨substituted, value, hsubstitute, hevaluate, h⟩
  · rintro ⟨substituted, value, hsubstitute, hevaluate, rfl⟩
    exact bind_eq_ok.2 ⟨substituted, hsubstitute, bind_pure_eq_ok.2 ⟨value, hevaluate, rfl⟩⟩

/-- A relation fails in substitution or in the evaluation of what that gives. -/
theorem solve_eq_error {relation : Relation} {b : Bindings} {fault : EvalFault}
    (h : solve relation b = .error fault) :
    relation.formula.substitute b = .error fault ∨
      ∃ e, relation.formula.substitute b = .ok e ∧ e.evaluate = .error fault := by
  unfold solve at h
  rcases bind_eq_error.1 h with h | ⟨e, hsubstitute, h⟩
  · exact .inl h
  · rcases bind_eq_error.1 h with h | ⟨value, -, h⟩
    · exact .inr ⟨e, hsubstitute, h⟩
    · cases h

/-- A move leaves a solved step with its result, or an assumption with its value. -/
theorem perform_eq_ok {m : Move} {b : Bindings} {step : Step} {value : Float}
    (h : m.perform b = .ok (step, value)) :
    (∃ catalog relation s, m = .fire catalog relation ∧ solve relation b = .ok s ∧
      step = .solved s ∧ value = s.result) ∨
    (∃ name, m = .assume name value ∧ step = .hint (assumption name value)) := by
  cases m with
  | fire catalog relation =>
    unfold perform at h
    dsimp only at h
    split at h
    · next s hsolve =>
      cases h
      exact .inl ⟨catalog, relation, s, rfl, hsolve, rfl, rfl⟩
    · cases h
  | assume name v =>
    cases h
    exact .inr ⟨name, rfl, rfl⟩

/-- Only the use of a relation fails. -/
theorem perform_eq_error {m : Move} {b : Bindings} {fault : SolveFault}
    (h : m.perform b = .error fault) :
    ∃ catalog relation, m = .fire catalog relation ∧ solve relation b = .error fault.cause ∧
      fault.catalog = catalog ∧ fault.relation = relation.title := by
  cases m with
  | fire catalog relation =>
    unfold perform at h
    dsimp only at h
    split at h
    · cases h
    · next cause hsolve =>
      cases h
      exact ⟨catalog, relation, rfl, hsolve, rfl, rfl⟩
  | assume name v => cases h

end Move

/-! ## Runs -/

/-- Moves lead from some values to others and leave these steps. -/
inductive Run (imports : List Catalog) (assuming : Bool) : Bindings → List Step → Bindings → Prop
  | stay (b : Bindings) : Run imports assuming b [] b
  | move {b final : Bindings} {m : Move} {step : Step} {value : Float} {steps : List Step} :
    nextMove? imports assuming b = some m → m.perform b = .ok (step, value) →
      Run imports assuming (b.insert m.target value) steps final →
        Run imports assuming b (step :: steps) final

variable {imports : List Catalog} {assuming : Bool} {b final : Bindings} {steps : List Step}

/-- A finished derivation is a run. -/
theorem run_of_derive (h : derive imports assuming b = .ok (steps, final)) :
    Run imports assuming b steps final ∧ nextMove? imports assuming final = none := by
  fun_induction derive imports assuming b generalizing steps final with
  | case1 b hnone =>
    cases h
    exact ⟨.stay b, hnone⟩
  | case2 => cases h
  | case3 b m hnext step value hperform ih =>
    obtain ⟨⟨rest, last⟩, hderive, heq⟩ := map_eq_ok.1 h
    cases heq
    obtain ⟨hrun, hend⟩ := ih hderive
    exact ⟨.move hnext hperform hrun, hend⟩

/-- **A derivation is a run until there is no move.** -/
theorem derive_eq_ok_iff : derive imports assuming b = .ok (steps, final) ↔
    Run imports assuming b steps final ∧ nextMove? imports assuming final = none := by
  refine ⟨run_of_derive, ?_⟩
  rintro ⟨hrun, hend⟩
  -- The run makes the moves that the derivation picks, for the pick is a function.
  induction hrun with
  | stay b =>
    unfold derive
    split
    · rfl
    · next m hnext =>
      rw [hend] at hnext
      cases hnext
  | @move b final m step value steps hnext hperform hrun ih =>
    unfold derive
    split
    · next hnone =>
      rw [hnext] at hnone
      cases hnone
    · next m' hnext' =>
      rw [hnext] at hnext'
      cases hnext'
      rw [hperform]
      dsimp only
      rw [ih hend]
      rfl

/-- A run passes through values between any two of its steps. -/
theorem Run.of_append {before after : List Step}
    (h : Run imports assuming b (before ++ after) final) :
    ∃ held, Run imports assuming b before held ∧ Run imports assuming held after final := by
  induction before generalizing b with
  | nil => exact ⟨b, .stay b, h⟩
  | cons first before ih =>
    cases h with
    | move hnext hperform hrun =>
      obtain ⟨held, hbefore, hafter⟩ := ih hrun
      exact ⟨held, .move hnext hperform hbefore, hafter⟩

/-- A failed derivation is a run until a move that fails. -/
theorem run_of_derive_error {fault : SolveFault} (h : derive imports assuming b = .error fault) :
    ∃ steps b' m, Run imports assuming b steps b' ∧ nextMove? imports assuming b' = some m ∧
      m.perform b' = .error fault := by
  fun_induction derive imports assuming b with
  | case1 => cases h
  | case2 b m hnext fault' hperform =>
    cases h
    exact ⟨[], b, m, .stay b, hnext, hperform⟩
  | case3 b m hnext step value hperform ih =>
    obtain ⟨steps, b', m', hrun, hnext', hfail⟩ := ih (map_eq_error.1 h)
    exact ⟨step :: steps, b', m', .move hnext hperform hrun, hnext', hfail⟩

end Stepwise
