import Stepwise.Proofs.Catalog
import Stepwise.Proofs.Solution.Trace

/-!
# Freedom from faults

Registration checks names, a relation fires on bound inputs, substitution looks up
names, evaluation reduces what is left. Together they leave one fault:

> `solve_error_cause`: if a line fails, some import asks for a reference angle and
> the angle is on an axis.

So the catalogs that come with the solver never fail, whatever the line.
-/

namespace Stepwise

/-- An applicable relation of a sound catalog fails only at a reference angle. -/
theorem Move.solve_error_of_sound {relation : Relation} {b : Bindings} {catalog : String}
    {fault : EvalFault} (hsound : relation.fault? catalog = none)
    (happlicable : relation.isApplicable b = true)
    (h : Move.solve relation b = .error fault) :
    .reference ∈ relation.formula.functions ∧ ∃ degrees, fault = .axisAngle degrees := by
  obtain ⟨e, hsubstitute⟩ := Relation.exists_substitute hsound happlicable
  rcases Move.solve_eq_error h with h | ⟨e', he', hevaluate⟩
  · -- Every name of the formula is an input, and every input is bound.
    rw [hsubstitute] at h
    cases h
  · -- The substituted formula has no name left to fail on.
    obtain ⟨hnames, hcalls⟩ := Expr.substitute_ok he'
    have hfail := Expr.evaluate_failsOnly e' fault hevaluate
    rw [hnames, hcalls] at hfail
    cases hfail with
    | unsubstituted name hname => cases hname
    | axisAngle degrees hcalls => exact ⟨hcalls, degrees, rfl⟩

/-- A move among sound catalogs fails only at a reference angle of one of them. -/
theorem Move.perform_error_of_sound {imports : List Catalog} {assuming : Bool} {b : Bindings}
    {m : Move} {fault : SolveFault} (hsound : ∀ c ∈ imports, c.fault? = none)
    (hnext : nextMove? imports assuming b = some m) (hfail : m.perform b = .error fault) :
    (∃ c ∈ imports, c.asksReference = true) ∧ ∃ degrees, fault.cause = .axisAngle degrees := by
  obtain ⟨catalog, relation, rfl, hsolve, -, -⟩ := Move.perform_eq_error hfail
  rcases nextMove?_cases hnext with ⟨_, _, heq, hmem, happlicable⟩ | ⟨_, _, heq, -⟩
  · cases heq
    obtain ⟨c, hc, rfl, hrelation⟩ := mem_relationsOf.1 hmem
    have hrelationSound := Catalog.fault?_eq_none_iff.1 (hsound c hc) relation hrelation
    obtain ⟨hcalls, hcause⟩ := Move.solve_error_of_sound hrelationSound happlicable hsolve
    refine ⟨⟨c, hc, ?_⟩, hcause⟩
    rw [← Bool.not_eq_false, Catalog.asksReference_eq_false_iff]
    exact fun hnone => hnone relation hrelation hcalls
  · cases heq

namespace Registry

/-- What a session imports was checked when it was registered. -/
theorem fault?_of_resolve {r : Registry} {names : List String} {imports : List Catalog}
    (h : r.resolve names = .ok imports) : ∀ c ∈ imports, c.fault? = none := by
  intro c hc
  obtain ⟨name, -, hget⟩ := mem_of_resolve h hc
  exact r.sound c (mem_of_get? hget)

/-- **A line fails only where an import asks for the reference angle of an axis.** -/
theorem solve_error_cause {r : Registry} {line : String} {fault : SolveFault}
    (h : r.solve line = .error fault) :
    (∃ name ∈ (Session.read line).session.libraries, ∃ c, r.get? name = some c ∧
      c.asksReference = true) ∧ ∃ degrees, fault.cause = .axisAngle degrees := by
  -- Whatever the run before it, the move that fails is one of a registered catalog.
  obtain ⟨imports, hresolve, steps, b, m, -, hnext, hfail⟩ := solve_error h
  obtain ⟨⟨c, hc, hasks⟩, hcause⟩ :=
    Move.perform_error_of_sound (fault?_of_resolve hresolve) hnext hfail
  obtain ⟨name, hname, hget⟩ := mem_of_resolve hresolve hc
  exact ⟨⟨name, hname, c, hget, hasks⟩, hcause⟩

/-- Imports that ask for no reference angle have a solution for every line. -/
theorem exists_solve {r : Registry} {line : String}
    (h : ∀ name ∈ (Session.read line).session.libraries, ∀ c, r.get? name = some c →
      c.asksReference = false) : ∃ steps, r.solve line = .ok steps := by
  cases hsolve : r.solve line with
  | ok steps => exact ⟨steps, rfl⟩
  | error fault =>
    obtain ⟨⟨name, hname, c, hget, hasks⟩, -⟩ := solve_error_cause hsolve
    rw [h name hname c hget] at hasks
    cases hasks

/-- **Registered catalogs do not fail on names**: whatever was offered and whatever
the line, a fault is the reference angle of an axis; without a formula that asks for
one among the imports there is a solution, and so there is with the catalogs that
come with the solver. -/
theorem solve_faultFree (offered : List Catalog) (line : String) :
    (∀ fault, (empty.registerAll offered).solve line = .error fault →
      ∃ degrees, fault.cause = .axisAngle degrees) ∧
    ((∀ name ∈ (Session.read line).session.libraries, ∀ c,
        (empty.registerAll offered).get? name = some c → c.asksReference = false) →
      ∃ steps, (empty.registerAll offered).solve line = .ok steps) ∧
    ∃ steps, builtin.solve line = .ok steps := by
  refine ⟨fun fault h => (solve_error_cause h).2, exists_solve, ?_⟩
  exact exists_solve fun name _ c hget => asksReference_builtin (mem_of_get? hget)

/-- A catalog that asks for the reference angle of an angle. -/
def referenceAngles : Catalog where
  name := "angles"
  relations :=
    [{ title := "Compute the reference angle"
       description := "The reference angle is the angle to the next axis."
       takes := [⟨"a", some "deg"⟩]
       gives := ⟨"r", some "deg"⟩
       formula := .call .reference (.variable ⟨"a", some "deg"⟩) }]

/-- An angle on an axis is the fault that is left, and the slopes have none. -/
theorem solve_faultFree_referenceAngles :
    (∃ fault, (empty.registerAll [referenceAngles]).solve "!angles a=90" = .error fault ∧
      ∃ degrees, fault.cause = .axisAngle degrees) ∧
    ∃ steps, (empty.registerAll [Slopes.catalog]).solve "!slopes Dx=3 Dy=4" = .ok steps := by
  constructor
  · have hfails : ((empty.registerAll [referenceAngles]).solve "!angles a=90").isOk = false := by
      decide +kernel
    cases hsolve : (empty.registerAll [referenceAngles]).solve "!angles a=90" with
    | error fault =>
      exact ⟨fault, rfl, (solve_faultFree [referenceAngles] "!angles a=90").1 fault hsolve⟩
    | ok steps =>
      rw [hsolve] at hfails
      cases hfails
  · refine (solve_faultFree [Slopes.catalog] "!slopes Dx=3 Dy=4").2.1 ?_
    intro name _ c hget
    rcases mem_registerAll (mem_of_get? hget) with h | h
    · cases h
    · rw [List.mem_singleton.1 h]
      decide

end Registry

end Stepwise
