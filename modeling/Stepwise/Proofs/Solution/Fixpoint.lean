import Stepwise.Proofs.Solution.Policy

/-!
# The end of a run is a fixpoint

A run ends where two searches fail at the same values: the one for a relation that
can be used and the one for a default to assume. Presumed values make relations come
and go, so nothing weaker than the failure at the end itself will do:

> `solve_fixpoint`: at the values of a summary no relation of an import can be used
> and, unless assumptions are off, every default is bound.

A session that starts from such values therefore has nothing to derive, and ends in
the same summary.
-/

namespace Stepwise

/-- A trace that ends in the summary of some values, and derives and assumes nothing. -/
structure Settled (steps : List Step) (final : Bindings) : Prop where
  last : steps.getLast? = some (.summary final)
  only : ∀ values, .summary values ∈ steps → values = final
  underived : ∀ s, .solved s ∉ steps
  unassumed : ∀ h, .hint h ∈ steps → h.assumed? = none

theorem settled_remarks (imports : List Catalog) (reading : Session.Reading) (final : Bindings) :
    Settled (remarks imports reading ++ [.summary final]) final := by
  have hremark : ∀ step, step.isProgress = true → step ∉ remarks imports reading := by
    intro step hprogress hmem
    rw [isProgress_of_mem_remarks hmem] at hprogress
    cases hprogress
  refine ⟨List.getLast?_concat .., fun values hmem => ?_, fun s hmem => ?_, fun h hmem => ?_⟩
  · rcases List.mem_append.1 hmem with hmem | hmem
    · exact absurd hmem (hremark _ rfl)
    · cases List.mem_singleton.1 hmem
      rfl
  · rcases List.mem_append.1 hmem with hmem | hmem
    · exact hremark _ rfl hmem
    · cases List.mem_singleton.1 hmem
  · rcases List.mem_append.1 hmem with hmem | hmem
    · exact bound?_of_mem_remarks hmem
    · cases List.mem_singleton.1 hmem

theorem derive_of_nextMove?_eq_none {imports : List Catalog} {assuming : Bool} {b : Bindings}
    (h : nextMove? imports assuming b = none) : derive imports assuming b = .ok ([], b) :=
  derive_eq_ok_iff.2 ⟨.stay b, h⟩

namespace Registry

variable {r : Registry} {line : String} {imports : List Catalog}

/-- From values at which there is no move, a session has its remarks and the summary. -/
theorem solveSession_of_nextMove?_eq_none {s : Session}
    (hresolve : r.resolve s.libraries = .ok imports) (hne : imports ≠ [])
    (hend : nextMove? imports (!s.hasHint noImplicit) s.values = none) :
    r.solveSession s = .ok (remarks imports ⟨s, []⟩ ++ [.summary s.values]) := by
  unfold solveSession
  rw [hresolve]
  cases imports with
  | nil => exact absurd rfl hne
  | cons c imports =>
    dsimp only
    rw [derive_of_nextMove?_eq_none hend]
    show Except.ok (unknownHintSteps _ _ ++ warningSteps _ _ _ ++ [] ++ _) = _
    rw [List.append_nil]
    rfl

theorem solve_of_nextMove?_eq_none
    (hresolve : r.resolve (Session.read line).session.libraries = .ok imports) (hne : imports ≠ [])
    (hend : nextMove? imports (!(Session.read line).session.hasHint noImplicit)
      (Session.read line).session.values = none) :
    r.solve line = .ok (remarks imports (Session.read line) ++
      [.summary (Session.read line).session.values]) := by
  unfold solve
  dsimp only
  rw [solveSession_of_nextMove?_eq_none hresolve hne hend]
  refine congrArg Except.ok ?_
  unfold remarks
  simp only [List.map_nil, List.nil_append, List.append_assoc]

/-- **A summary is a fixpoint**: no relation of an import can be used at its values and,
unless assumptions are off, each default is bound. Started from these values, the
session derives and assumes nothing and has the same summary, and so has every line
that says that session. -/
theorem solve_fixpoint {steps : List Step} {final : Bindings} (h : r.solve line = .ok steps)
    (hsummary : .summary final ∈ steps) :
    (∀ c ∈ r.importsOf (Session.read line).session,
      (∀ relation ∈ c.relations, ¬ relation.Usable final) ∧
      (noImplicit ∉ (Session.read line).session.hints →
        ∀ i ∈ c.implicits, ∃ value, final.get? i.1 = some value)) ∧
    (∃ again, r.solveSession { (Session.read line).session with values := final } = .ok again ∧
      Settled again final) ∧
    ∀ line', (Session.read line').session = { (Session.read line).session with values := final } →
      ∃ again, r.solve line' = .ok again ∧ Settled again final := by
  obtain ⟨imports, moves, hresolve, hne, -, hend, -⟩ := solve_summary h hsummary
  obtain ⟨hrelations, himplicits⟩ := nextMove?_eq_none_iff.1 hend
  refine ⟨?_, ?_, ?_⟩
  · rw [importsOf_eq hresolve]
    intro c hc
    refine ⟨fun relation hrelation => ?_, fun hassuming i hi => ?_⟩
    · exact hrelations (c.name, relation) (mem_relationsOf.2 ⟨c, hc, rfl, hrelation⟩)
    · refine himplicits ?_ i (List.mem_flatMap.2 ⟨c, hc, hi⟩)
      unfold Session.hasHint
      rw [Bool.not_eq_true', ← Bool.not_eq_true, List.contains_iff_mem]
      exact hassuming
  · exact ⟨_, solveSession_of_nextMove?_eq_none (s := { (Session.read line).session with
      values := final }) hresolve hne hend, settled_remarks imports _ final⟩
  · intro line' hsession
    have hresolve' : r.resolve (Session.read line').session.libraries = .ok imports := by
      rw [hsession]
      exact hresolve
    have hend' : nextMove? imports (!(Session.read line').session.hasHint noImplicit)
        (Session.read line').session.values = none := by
      rw [hsession]
      exact hend
    refine ⟨_, solve_of_nextMove?_eq_none hresolve' hne hend', ?_⟩
    rw [hsession]
    exact settled_remarks imports _ final

/-- A summary that a run of several solved steps and an assumption leads to. -/
theorem solve_fixpoint_slopes : ∃ steps final,
    builtin.solve "!slopes Dx=3 Dy=4 xi=1" = .ok steps ∧ .summary final ∈ steps ∧
      (∀ c ∈ builtin.importsOf (Session.read "!slopes Dx=3 Dy=4 xi=1").session,
        ∀ relation ∈ c.relations, ¬ relation.Usable final) ∧
      ∃ again, builtin.solveSession { (Session.read "!slopes Dx=3 Dy=4 xi=1").session with
        values := final } = .ok again ∧ Settled again final := by
  have hends : builtin.ends "!slopes Dx=3 Dy=4 xi=1" = true := by decide +kernel
  obtain ⟨steps, final, hsolve, hsummary⟩ := exists_steps_of_ends hends
  obtain ⟨hclosed, hagain, -⟩ := solve_fixpoint hsolve hsummary
  exact ⟨steps, final, hsolve, hsummary, fun c hc => (hclosed c hc).1, hagain⟩

end Registry

end Stepwise
