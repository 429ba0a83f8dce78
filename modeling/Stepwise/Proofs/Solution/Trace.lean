import Stepwise.Proofs.Solution.Run

/-!
# The trace of a session line

A trace with a summary is remarks, then the steps of a run, then the summary of the
values at the end of the run, where no move is left:

> `solve_summary`: what a summary shows is what the run before it leads to.

A line fails only where the run of its session fails (`solve_error`).
-/

namespace Stepwise

/-! ## No step but the last is a summary -/

/-- The values that a summary shows. -/
def Step.summary? : Step → Option Bindings
  | .summary values => some values
  | _ => none

theorem Step.summary?_eq_some {step : Step} {values : Bindings} (h : step.summary? = some values) :
    step = .summary values := by
  cases step with
  | summary values' =>
    cases h
    rfl
  | error message => cases h
  | solved s => cases h
  | hint hint => cases h

theorem summary_not_mem_unknownHintSteps {imports : List Catalog} {hints : List String}
    {values : Bindings} : Step.summary values ∉ unknownHintSteps imports hints := by
  intro h
  obtain ⟨hint, -, heq⟩ := List.mem_map.1 h
  cases heq

theorem summary_not_mem_warningSteps {imports : List Catalog} {hints : List String}
    {b values : Bindings} : Step.summary values ∉ warningSteps imports hints b := by
  intro h
  obtain ⟨w, -, heq⟩ := List.mem_filterMap.1 h
  split at heq
  · cases heq
  · obtain ⟨advice, -, heq⟩ := Option.map_eq_some_iff.1 heq
    cases heq

/-- A move leaves no summary, so a run leaves none. -/
theorem Run.summary_not_mem {imports : List Catalog} {assuming : Bool} {b final : Bindings}
    {steps : List Step} (h : Run imports assuming b steps final) {values : Bindings} :
    Step.summary values ∉ steps := by
  induction h with
  | stay b => exact List.not_mem_nil
  | move _ hperform _ ih =>
    intro hmem
    rcases List.mem_cons.1 hmem with heq | hmem
    · rcases Move.perform_eq_ok hperform with ⟨_, _, _, _, _, hstep, _⟩ | ⟨_, _, hstep⟩
      · rw [hstep] at heq
        cases heq
      · rw [hstep] at heq
        cases heq
    · exact ih hmem

/-- What is said of a line before the first move. -/
def remarks (imports : List Catalog) (reading : Session.Reading) : List Step :=
  reading.faults.map (fun fault => .error fault.message) ++
    unknownHintSteps imports reading.session.hints ++
      warningSteps imports reading.session.hints reading.session.values

/-! ## Sessions -/

namespace Registry

variable {r : Registry}

/-- The imports of a session are what its names stand for, in order. -/
theorem resolve_eq_ok_iff {names : List String} {imports : List Catalog} :
    r.resolve names = .ok imports ↔ names.map r.get? = imports.map some := by
  induction names generalizing imports with
  | nil =>
    cases imports with
    | nil => simp [resolve]
    | cons c imports => simp [resolve]
  | cons name names ih =>
    rw [resolve, List.map_cons]
    cases hget : r.get? name with
    | none => cases imports <;> simp
    | some c =>
      cases imports with
      | nil => simp [map_eq_ok]
      | cons d imports =>
        simp only [map_eq_ok, ih, List.map_cons, List.cons.injEq, Option.some.injEq]
        constructor
        · rintro ⟨rest, hrest, rfl, rfl⟩
          exact ⟨rfl, hrest⟩
        · rintro ⟨rfl, hrest⟩
          exact ⟨imports, hrest, rfl, rfl⟩

/-- An import is a registered catalog under a name that the session lists. -/
theorem mem_of_resolve {names : List String} {imports : List Catalog} {c : Catalog}
    (h : r.resolve names = .ok imports) (hc : c ∈ imports) :
    ∃ name ∈ names, r.get? name = some c := by
  have hmem : some c ∈ names.map r.get? := by
    rw [resolve_eq_ok_iff.1 h]
    exact List.mem_map.2 ⟨c, hc, rfl⟩
  exact List.mem_map.1 hmem

/-- A session fails only in its derivation. -/
theorem solveSession_error {s : Session} {fault : SolveFault}
    (h : r.solveSession s = .error fault) :
    ∃ imports, r.resolve s.libraries = .ok imports ∧
      derive imports (!s.hasHint noImplicit) s.values = .error fault := by
  unfold solveSession at h
  split at h
  · cases h
  · cases h
  · next imports _ hresolve => exact ⟨imports, hresolve, map_eq_error.1 h⟩

/-- A session whose steps have a summary has made a run to it. -/
theorem solveSession_summary {s : Session} {steps : List Step} {final : Bindings}
    (h : r.solveSession s = .ok steps) (hsummary : .summary final ∈ steps) :
    ∃ imports moves, r.resolve s.libraries = .ok imports ∧ imports ≠ [] ∧
      Run imports (!s.hasHint noImplicit) s.values moves final ∧
      nextMove? imports (!s.hasHint noImplicit) final = none ∧
      steps = unknownHintSteps imports s.hints ++ warningSteps imports s.hints s.values ++
        moves ++ [.summary final] := by
  unfold solveSession at h
  split at h
  · cases h
    cases List.mem_singleton.1 hsummary
  · cases h
    rcases List.mem_append.1 hsummary with hmem | hmem
    · exact absurd hmem summary_not_mem_unknownHintSteps
    · cases List.mem_singleton.1 hmem
  · next imports hne hresolve =>
    obtain ⟨⟨moves, last⟩, hderive, rfl⟩ := map_eq_ok.1 h
    obtain ⟨hrun, hend⟩ := derive_eq_ok_iff.1 hderive
    have hlast : final = last := by
      rcases List.mem_append.1 hsummary with hmem | hmem
      · rcases List.mem_append.1 hmem with hmem | hmem
        · rcases List.mem_append.1 hmem with hmem | hmem
          · exact absurd hmem summary_not_mem_unknownHintSteps
          · exact absurd hmem summary_not_mem_warningSteps
        · exact absurd hmem hrun.summary_not_mem
      · cases List.mem_singleton.1 hmem
        rfl
    subst hlast
    exact ⟨imports, moves, hresolve, hne, hrun, hend, rfl⟩

/-- **A line fails only where a move of its session fails.** -/
theorem solve_error {line : String} {fault : SolveFault} (h : r.solve line = .error fault) :
    ∃ imports, r.resolve (Session.read line).session.libraries = .ok imports ∧
      ∃ steps b m, Run imports (!(Session.read line).session.hasHint noImplicit)
          (Session.read line).session.values steps b ∧
        nextMove? imports (!(Session.read line).session.hasHint noImplicit) b = some m ∧
        m.perform b = .error fault := by
  obtain ⟨imports, hresolve, hderive⟩ := solveSession_error (map_eq_error.1 h)
  exact ⟨imports, hresolve, run_of_derive_error hderive⟩

/-- **What a summary shows is what the run before it leads to.** -/
theorem solve_summary {line : String} {steps : List Step} {final : Bindings}
    (h : r.solve line = .ok steps) (hsummary : .summary final ∈ steps) :
    ∃ imports moves, r.resolve (Session.read line).session.libraries = .ok imports ∧
      imports ≠ [] ∧
      Run imports (!(Session.read line).session.hasHint noImplicit)
        (Session.read line).session.values moves final ∧
      nextMove? imports (!(Session.read line).session.hasHint noImplicit) final = none ∧
      steps = remarks imports (Session.read line) ++ moves ++ [.summary final] := by
  obtain ⟨steps', hsession, rfl⟩ := map_eq_ok.1 h
  have hsummary : .summary final ∈ steps' := by
    rcases List.mem_append.1 hsummary with hmem | hmem
    · obtain ⟨fault, -, heq⟩ := List.mem_map.1 hmem
      cases heq
    · exact hmem
  obtain ⟨imports, moves, hresolve, hne, hrun, hend, rfl⟩ :=
    solveSession_summary hsession hsummary
  refine ⟨imports, moves, hresolve, hne, hrun, hend, ?_⟩
  unfold remarks
  simp only [List.append_assoc]

end Registry

end Stepwise
