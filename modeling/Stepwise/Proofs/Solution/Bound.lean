import Mathlib.Data.Finset.Card
import Mathlib.Data.List.Basic
import Stepwise.Proofs.Solution.Course

/-!
# The length of a run

A run has no counter. What it uses up are the names that some relation or default of the
imports can bind and that are unbound, however the relations lead into each other and
however often a name can be bound:

> `Run.length_add_card`: the moves that a run has made, and the names that it has left
> open, are as many as the names that were open when it began.

So no run makes more moves than there are open names, and a derivation comes to an end
(`solveSession_bounded`).
-/

namespace Stepwise

/-- The unbound names that some catalogs can bind, each once. -/
def openNames (imports : List Catalog) (b : Bindings) : Finset String :=
  (pending imports b).toFinset

variable {imports : List Catalog} {assuming : Bool} {b final : Bindings} {steps : List Step}

/-- An open name has no value, and is the output of a relation or has a default. -/
theorem mem_openNames_iff {name : String} : name ∈ openNames imports b ↔
    b.get? name = none ∧ ∃ c ∈ imports,
      (∃ relation ∈ c.relations, relation.gives.name = name) ∨ ∃ i ∈ c.implicits, i.1 = name := by
  have hrelations : name ∈ (relationsOf imports).map (·.2.gives.name) ↔
      ∃ c ∈ imports, ∃ relation ∈ c.relations, relation.gives.name = name := by
    rw [List.mem_map, Prod.exists]
    constructor
    · rintro ⟨catalog, relation, hmem, rfl⟩
      obtain ⟨c, hc, -, hrelation⟩ := mem_relationsOf.1 hmem
      exact ⟨c, hc, relation, hrelation, rfl⟩
    · rintro ⟨c, hc, relation, hrelation, rfl⟩
      exact ⟨c.name, relation, mem_relationsOf.2 ⟨c, hc, rfl, hrelation⟩, rfl⟩
  have himplicits : name ∈ (implicitsOf imports).map (·.1) ↔
      ∃ c ∈ imports, ∃ i ∈ c.implicits, i.1 = name := by
    rw [List.mem_map]
    constructor
    · rintro ⟨i, hmem, rfl⟩
      obtain ⟨c, hc, hi⟩ := List.mem_flatMap.1 hmem
      exact ⟨c, hc, i, hi, rfl⟩
    · rintro ⟨c, hc, i, hi, rfl⟩
      exact ⟨i, List.mem_flatMap.2 ⟨c, hc, hi⟩, rfl⟩
  unfold openNames pending producible
  rw [List.mem_toFinset, List.mem_filter, List.mem_append, hrelations, himplicits,
    Bool.not_eq_true', Bindings.contains_eq_false_iff, and_comm]
  simp only [and_or_left, exists_or]

/-! ## What one move uses up -/

theorem openNames_insert (b : Bindings) (name : String) (value : Float) :
    openNames imports (b.insert name value) = (openNames imports b).erase name := by
  ext n
  rw [Finset.mem_erase, mem_openNames_iff, mem_openNames_iff, Bindings.get?_insert, ← and_assoc]
  refine and_congr_left fun _ => ?_
  by_cases hname : n = name
  · simp [hname]
  · simp [hname]

/-- A move binds an open name, so one name less is open behind it. -/
theorem card_openNames_insert {m : Move} (h : nextMove? imports assuming b = some m)
    (value : Float) :
    (openNames imports (b.insert m.target value)).card + 1 = (openNames imports b).card := by
  have hopen : m.target ∈ openNames imports b := List.mem_toFinset.2 (nextMove?_target h)
  rw [openNames_insert]
  exact Finset.card_erase_add_one hopen

/-! ## What a run uses up -/

/-- **The moves of a run are as many as the names that it has closed.** -/
theorem Run.length_add_card (h : Run imports assuming b steps final) :
    steps.length + (openNames imports final).card = (openNames imports b).card := by
  induction h with
  | stay b => exact Nat.zero_add _
  | @move b final m step value steps hnext hperform hrun ih =>
    have hone := card_openNames_insert hnext value
    rw [List.length_cons]
    omega

theorem Run.length_le (h : Run imports assuming b steps final) :
    steps.length ≤ (openNames imports b).card := by
  have hcard := h.length_add_card
  omega

/-! ## Sessions -/

theorem countP_bound?_eq_zero {steps : List Step} (h : ∀ step ∈ steps, step.bound? = none) :
    steps.countP (·.bound?.isSome) = 0 := by
  rw [List.countP_eq_zero]
  intro step hstep
  rw [h step hstep]
  exact Bool.false_ne_true

/-- The steps of a course that bind a name are among its moves. -/
theorem Course.countP_trace_le (c : Course) :
    c.trace.countP (·.bound?.isSome) ≤ c.steps.length := by
  have hlast : (if c.fault.isNone then [Step.summary c.held] else []).countP
      (·.bound?.isSome) = 0 := by
    split
    · rfl
    · rfl
  unfold trace
  rw [List.countP_append, hlast, Nat.add_zero]
  exact List.countP_le_length

namespace Registry

variable {r : Registry} {s : Session}

theorem countP_traceSession_le : (r.traceSession s).1.countP (·.bound?.isSome) ≤
    (openNames (r.importsOf s) s.values).card := by
  unfold traceSession
  cases hresolve : r.resolve s.libraries with
  | error name => exact Nat.zero_le _
  | ok imports =>
    rw [importsOf_eq hresolve]
    cases imports with
    | nil =>
      dsimp only
      rw [countP_bound?_eq_zero]
      · exact Nat.zero_le _
      · rw [List.forall_mem_append, List.forall_mem_singleton]
        exact ⟨fun step hstep => bound?_of_mem_unknown_warnings (b := s.values)
          (List.mem_append_left _ hstep), rfl⟩
    | cons c imports =>
      dsimp only
      -- What is said before the moves binds nothing.
      rw [List.countP_append, countP_bound?_eq_zero fun _ => bound?_of_mem_unknown_warnings,
        Nat.zero_add]
      exact (Course.countP_trace_le _).trans run_course.length_le

/-- **The moves of a session are bounded by its open names.** Its derivation comes to an
end, at values where there is no move or the next one fails. The moves made on the way to
any values that it passes through, and the names still open there, are as many as the
names open at first. So it derives and assumes no more values than that, also if it fails
in the end, and neither does a line that says it. -/
theorem solveSession_bounded (r : Registry) (s : Session) :
    (∃ moves held, Run (r.importsOf s) (!s.hasHint noImplicit) s.values moves held ∧
      (nextMove? (r.importsOf s) (!s.hasHint noImplicit) held = none ∨
        ∃ m fault, nextMove? (r.importsOf s) (!s.hasHint noImplicit) held = some m ∧
          m.perform held = .error fault)) ∧
    (∀ moves held, Run (r.importsOf s) (!s.hasHint noImplicit) s.values moves held →
      moves.length + (openNames (r.importsOf s) held).card =
        (openNames (r.importsOf s) s.values).card) ∧
    (r.traceSession s).1.countP (·.bound?.isSome) ≤ (openNames (r.importsOf s) s.values).card ∧
    ∀ line steps, (Session.read line).session = s → r.solve line = .ok steps →
      steps.countP (·.bound?.isSome) ≤ (openNames (r.importsOf s) s.values).card := by
  refine ⟨⟨_, _, run_course, ?_⟩, fun moves held => Run.length_add_card, countP_traceSession_le, ?_⟩
  · have hends := @course_ends (r.importsOf s) (!s.hasHint noImplicit) s.values
    split at hends
    · exact .inl hends
    · next fault _ =>
      obtain ⟨m, hnext, hperform⟩ := hends
      exact .inr ⟨m, fault, hnext, hperform⟩
  · rintro line steps rfl hsolve
    obtain ⟨steps', hsession, rfl⟩ := map_eq_ok.1 hsolve
    have hcount := @countP_traceSession_le r (Session.read line).session
    rw [solveSession_eq_ok_iff.1 hsession] at hcount
    have hfaults : (faultErrors (Session.read line)).countP (·.bound?.isSome) = 0 := by
      refine countP_bound?_eq_zero fun step hstep => ?_
      obtain ⟨fault, -, rfl⟩ := List.mem_map.1 hstep
      rfl
    show (faultErrors _ ++ _).countP _ ≤ _
    rw [List.countP_append, hfaults, Nat.zero_add]
    exact hcount

/-- A line whose relations lead into each other, where several give one name and two
catalogs have a default for it, and which imports one of them twice. -/
def circularLine : String := "!slopes !unit-circle !slopes Dx=3 Dy=4 xi=1"

/-- The bound is met. -/
theorem solveSession_bounded_circular : ∃ steps, builtin.solve circularLine = .ok steps ∧
    steps.countP (·.bound?.isSome) ≤ (openNames (builtin.importsOf
      (Session.read circularLine).session) (Session.read circularLine).session.values).card ∧
    steps.countP (·.bound?.isSome) = 10 ∧ (openNames (builtin.importsOf
      (Session.read circularLine).session) (Session.read circularLine).session.values).card = 10 := by
  have hcount : (builtin.solve circularLine).toOption.map (·.countP (·.bound?.isSome)) =
      some 10 := by decide +kernel
  cases hsolve : builtin.solve circularLine with
  | error fault =>
    rw [hsolve] at hcount
    cases hcount
  | ok steps =>
    rw [hsolve] at hcount
    obtain ⟨-, -, -, hbound⟩ := solveSession_bounded builtin (Session.read circularLine).session
    exact ⟨steps, rfl, hbound circularLine steps rfl hsolve, Option.some.inj hcount,
      by decide +kernel⟩

end Registry

end Stepwise
