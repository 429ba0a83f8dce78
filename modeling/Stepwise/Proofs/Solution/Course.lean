import Stepwise.Proofs.Solution.FaultFree
import Stepwise.Proofs.Solution.Hints

/-!
# The course of a session

A derivation that fails has made moves before the one that failed, which its result does
not show. Its course keeps them, and with them a failed session can be compared with one
that ends well. Without assumptions a derivation makes the same moves up to the first place
where something would be assumed, and ends there, since no relation can be used where
something is assumed:

> `course_false_cases`: with assumptions off, the steps are those before the first
> assumption, and no move fails behind them.

So turning assumptions off cuts a trace short (`Cut`), also one that goes on to a move that
fails (`traceSession_cut`).
-/

namespace Stepwise

/-- What a derivation comes to: the steps of its moves, the values held behind them, and
the fault of the move that failed, if one did. -/
structure Course where
  steps : List Step
  held : Bindings
  fault : Option SolveFault

/-- The steps of a course with the summary at the end, if no move failed. -/
def Course.trace (c : Course) : List Step :=
  c.steps ++ if c.fault.isNone then [.summary c.held] else []

/-- The course of a derivation, until there is no move or one fails. -/
def course (imports : List Catalog) (assuming : Bool) (b : Bindings) : Course :=
  match _h : nextMove? imports assuming b with
  | none => ⟨[], b, none⟩
  | some move =>
    match move.perform b with
    | .error fault => ⟨[], b, some fault⟩
    | .ok (step, value) =>
      let rest := course imports assuming (b.insert move.target value)
      ⟨step :: rest.steps, rest.held, rest.fault⟩
termination_by (pending imports b).length
decreasing_by exact length_pending_insert_lt _ (nextMove?_target ‹_›)

/-- The name and the value that a step assumes. -/
def Step.assumed? : Step → Option (String × Float)
  | .hint h => h.assumed?
  | _ => none

theorem Course.assumed?_of_mem_trace {c : Course} (h : ∀ step ∈ c.steps, step.assumed? = none)
    {step : Step} (hstep : step ∈ c.trace) : step.assumed? = none := by
  rcases List.mem_append.1 hstep with hstep | hstep
  · exact h step hstep
  · split at hstep
    · rw [List.mem_singleton.1 hstep]
      rfl
    · cases hstep

theorem Course.trace_eq {c : Course} {before after : List Step} {step : Step}
    (h : c.steps = before ++ step :: after) :
    ∃ rest, c.trace = before ++ step :: rest := by
  unfold trace
  rw [h, List.append_assoc]
  exact ⟨_, rfl⟩

variable {imports : List Catalog} {assuming : Bool} {b : Bindings}

/-! ## One move -/

theorem course_of_none (h : nextMove? imports assuming b = none) :
    course imports assuming b = ⟨[], b, none⟩ := by
  unfold course
  split
  · rfl
  · next m hnext =>
    rw [h] at hnext
    cases hnext

theorem course_of_error {m : Move} {fault : SolveFault} (h : nextMove? imports assuming b = some m)
    (hperform : m.perform b = .error fault) :
    course imports assuming b = ⟨[], b, some fault⟩ := by
  unfold course
  split
  · next hnone =>
    rw [h] at hnone
    cases hnone
  · next m' hnext =>
    rw [h] at hnext
    cases hnext
    rw [hperform]

theorem course_of_ok {m : Move} {step : Step} {value : Float}
    (h : nextMove? imports assuming b = some m) (hperform : m.perform b = .ok (step, value)) :
    course imports assuming b =
      ⟨step :: (course imports assuming (b.insert m.target value)).steps,
        (course imports assuming (b.insert m.target value)).held,
        (course imports assuming (b.insert m.target value)).fault⟩ := by
  rw [course]
  split
  · next hnone =>
    rw [h] at hnone
    cases hnone
  · next m' hnext =>
    rw [h] at hnext
    cases hnext
    rw [hperform]

/-- A derivation is its course, of which it drops the steps if a move failed. -/
theorem derive_eq_course : derive imports assuming b =
    match (course imports assuming b).fault with
    | none => .ok ((course imports assuming b).steps, (course imports assuming b).held)
    | some fault => .error fault := by
  fun_induction derive imports assuming b with
  | case1 b hnone => rw [course_of_none hnone]
  | case2 b m hnext fault hperform => rw [course_of_error hnext hperform]
  | case3 b m hnext step value hperform ih =>
    rw [course_of_ok hnext hperform, ih]
    cases (course imports assuming (b.insert m.target value)).fault with
    | none => rfl
    | some fault => rfl

/-- The steps of a course are those of a run. -/
theorem run_course : Run imports assuming b (course imports assuming b).steps
    (course imports assuming b).held := by
  fun_induction course imports assuming b with
  | case1 b hnone => exact .stay b
  | case2 b m hnext fault hperform => exact .stay b
  | case3 b m hnext step value hperform rest ih => exact .move hnext hperform ih

/-- A course ends where there is no move, or where the next one fails. -/
theorem course_ends : match (course imports assuming b).fault with
    | none => nextMove? imports assuming (course imports assuming b).held = none
    | some fault => ∃ m, nextMove? imports assuming (course imports assuming b).held = some m ∧
        m.perform (course imports assuming b).held = .error fault := by
  fun_induction course imports assuming b with
  | case1 b hnone => exact hnone
  | case2 b m hnext fault hperform => exact ⟨m, hnext, hperform⟩
  | case3 b m hnext step value hperform rest ih => exact ih

/-! ## Without assumptions -/

/-- Where there is no move, there is none without assumptions. -/
theorem nextMove?_false_of_none (h : nextMove? imports assuming b = none) :
    nextMove? imports false b = none := by
  rw [nextMove?_eq_none_iff] at h ⊢
  exact ⟨h.1, nofun⟩

/-- The use of a relation does not hang on assumptions. -/
theorem nextMove?_false_of_fire {catalog : String} {relation : Relation}
    (h : nextMove? imports assuming b = some (.fire catalog relation)) :
    nextMove? imports false b = some (.fire catalog relation) :=
  Option.or_eq_some_iff.2 (.inl (nextRelation?_of_fire h))

/-- Where something is assumed no relation can be used, so without assumptions there is
no move. -/
theorem nextMove?_false_of_assume {name : String} {value : Float}
    (h : nextMove? imports assuming b = some (.assume name value)) :
    nextMove? imports false b = none := by
  rcases nextMove?_cases h with ⟨_, _, heq, -⟩ | ⟨_, _, -, -, -, -, hnone⟩
  · cases heq
  · exact Option.or_eq_none_iff.2 ⟨hnone, rfl⟩

/-- **Without assumptions a derivation goes as far as the first assumption**, and ends
there; without one it goes the same way. -/
theorem course_false_cases :
    ((∀ step ∈ (course imports assuming b).steps, step.assumed? = none) ∧
      course imports false b = course imports assuming b) ∨
    ∃ before step after held, (course imports assuming b).steps = before ++ step :: after ∧
      (∀ x ∈ before, x.assumed? = none) ∧ step.assumed? ≠ none ∧
      course imports false b = ⟨before, held, none⟩ := by
  fun_induction course imports assuming b with
  | case1 b hnone =>
    exact .inl ⟨List.forall_mem_nil _, course_of_none (nextMove?_false_of_none hnone)⟩
  | case2 b m hnext fault hperform =>
    -- Only the use of a relation fails.
    obtain ⟨catalog, relation, rfl, -⟩ := Move.perform_eq_error hperform
    exact .inl ⟨List.forall_mem_nil _, course_of_error (nextMove?_false_of_fire hnext) hperform⟩
  | case3 b m hnext step value hperform rest ih =>
    rcases Move.perform_eq_ok hperform with ⟨catalog, relation, s, rfl, -, rfl, rfl⟩ |
      ⟨name, rfl, rfl⟩
    · have hfalse := course_of_ok (nextMove?_false_of_fire hnext) hperform
      rcases ih with ⟨hnone, heq⟩ | ⟨before, step, after, held, hsteps, hbefore, hstep, heq⟩
      · refine .inl ⟨List.forall_mem_cons.2 ⟨rfl, hnone⟩, ?_⟩
        rw [hfalse, heq]
      · refine .inr ⟨.solved s :: before, step, after, held, ?_, ?_, hstep, ?_⟩
        · exact congrArg (Step.solved s :: ·) hsteps
        · exact List.forall_mem_cons.2 ⟨rfl, hbefore⟩
        · rw [hfalse, heq]
    · refine .inr ⟨[], _, rest.steps, b, rfl, List.forall_mem_nil _, ?_, ?_⟩
      · exact Option.some_ne_none _
      · exact course_of_none (nextMove?_false_of_assume hnext)

/-! ## Traces cut short -/

theorem Step.assumed?_of_bound?_eq_none {step : Step} (h : step.bound? = none) :
    step.assumed? = none := by
  cases step with
  | hint hint => exact h
  | error message => rfl
  | solved s => rfl
  | summary values => rfl

/-- How a trace without assumptions comes from one with them, both with the fault at their
end: nothing is assumed and they are the same, or it ends before the first assumption, with
a summary of the values held there. -/
inductive Cut (b : Bindings) (t t' : List Step × Option SolveFault) : Prop
  | same : (∀ step ∈ t.1, step.assumed? = none) → t' = t → Cut b t t'
  | short (before : List Step) (step : Step) (after : List Step) (held : Bindings) :
    t.1 = before ++ step :: after → (∀ x ∈ before, x.assumed? = none) → step.assumed? ≠ none →
      replay b before = some held → t' = (before ++ [.summary held], none) → Cut b t t'

theorem cut_course : Cut b
    ((course imports assuming b).trace, (course imports assuming b).fault)
    ((course imports false b).trace, (course imports false b).fault) := by
  rcases @course_false_cases imports assuming b with
    ⟨hnone, heq⟩ | ⟨before, step, after, held, hsteps, hbefore, hstep, heq⟩
  · exact .same (fun _ => Course.assumed?_of_mem_trace hnone) (by rw [heq])
  · obtain ⟨rest, hrest⟩ := Course.trace_eq hsteps
    have hrun := @run_course imports false b
    rw [heq] at hrun
    refine .short before step rest held hrest hbefore hstep hrun.replay_eq ?_
    rw [heq]
    rfl

/-- Steps that bind nothing may stand before both traces. -/
theorem Cut.behind {t t' : List Step × Option SolveFault} (h : Cut b t t') {front : List Step}
    (hfront : ∀ step ∈ front, step.bound? = none) : Cut b (front ++ t.1, t.2) (front ++ t'.1, t'.2) := by
  have hassumed : ∀ step ∈ front, step.assumed? = none :=
    fun step hstep => Step.assumed?_of_bound?_eq_none (hfront step hstep)
  cases h with
  | same hnone heq => exact .same (List.forall_mem_append.2 ⟨hassumed, hnone⟩) (by rw [heq])
  | short before step after held hsteps hbefore hstep hreplay heq =>
    refine .short (front ++ before) step after held ?_
      (List.forall_mem_append.2 ⟨hassumed, hbefore⟩) hstep ?_ ?_
    · rw [hsteps, List.append_assoc]
    · rw [replay_append, replay_of_forall_bound?_eq_none hfront]
      exact hreplay
    · rw [heq, List.append_assoc]

/-! ## Sessions -/

/-- Nothing is assumed before the first move. -/
theorem bound?_of_mem_unknown_warnings {hints : List String} {step : Step}
    (h : step ∈ unknownHintSteps imports hints ++ warningSteps imports hints b) :
    step.bound? = none := by
  have hremark : step ∈ remarks imports ⟨⟨[], hints, b⟩, []⟩ := h
  exact bound?_of_mem_remarks hremark

/-- One more hint that turns assumptions off leaves the warnings as they are. -/
theorem warningSteps_noImplicit (front back : List String) :
    warningSteps imports (front ++ noImplicit :: back) b = warningSteps imports (front ++ back) b := by
  rw [warningSteps_insert, List.filter_eq_self]
  intro step hstep
  obtain ⟨_, _, w, _, _, advice, _, rfl⟩ :=
    (mem_warningSteps_iff (s := ⟨[], front ++ back, b⟩)).1 hstep
  rw [silencer?_warning]
  exact bne_iff_ne.2 fun heq => noImplicit_ne_bypass w.id (Option.some.inj heq).symm

namespace Registry

variable {r : Registry} {s s' : Session}

/-- The steps that a session makes, also if one of its moves fails, and the fault. -/
def traceSession (r : Registry) (s : Session) : List Step × Option SolveFault :=
  match r.resolve s.libraries with
  | .error name => ([.error ("Unknown library \"" ++ name ++ "\"")], none)
  | .ok [] => (unknownHintSteps [] s.hints ++ [.hint onboarding], none)
  | .ok imports =>
    let c := course imports (!s.hasHint noImplicit) s.values
    (unknownHintSteps imports s.hints ++ warningSteps imports s.hints s.values ++ c.trace, c.fault)

/-- A session has the steps that it makes, if none of its moves fails. -/
theorem solveSession_eq_trace : r.solveSession s =
    match (r.traceSession s).2 with
    | none => .ok (r.traceSession s).1
    | some fault => .error fault := by
  unfold solveSession traceSession
  cases r.resolve s.libraries with
  | error name => rfl
  | ok imports =>
    cases imports with
    | nil => rfl
    | cons c imports =>
      dsimp only
      rw [derive_eq_course]
      unfold Course.trace
      cases (course (c :: imports) (!s.hasHint noImplicit) s.values).fault with
      | none => exact congrArg Except.ok (List.append_assoc ..)
      | some fault => rfl

/-- **With assumptions turned off the trace of a session is cut short.** -/
theorem traceSession_cut {front back : List String} (hlibraries : s'.libraries = s.libraries)
    (hvalues : s'.values = s.values) (hhints : s.hints = front ++ back)
    (hhints' : s'.hints = front ++ noImplicit :: back) :
    Cut s.values (r.traceSession s) (r.traceSession s') := by
  have hoff : (!s'.hasHint noImplicit) = false := by
    unfold Session.hasHint
    rw [hhints', List.contains_iff_mem.2 (List.mem_append_right _ List.mem_cons_self)]
    rfl
  have hunknown : ∀ imports, unknownHintSteps imports s'.hints = unknownHintSteps imports s.hints := by
    intro imports
    rw [hhints, hhints', unknownHintSteps_insert List.mem_cons_self]
  have hwarnings : ∀ imports b,
      warningSteps imports s'.hints b = warningSteps imports s.hints b := by
    intro imports b
    rw [hhints, hhints', warningSteps_noImplicit]
  unfold traceSession
  rw [hlibraries, hoff, hvalues]
  simp only [hunknown, hwarnings]
  cases r.resolve s.libraries with
  | error name => exact .same (List.forall_mem_singleton.2 rfl) rfl
  | ok imports =>
    cases imports with
    | nil =>
      refine .same (fun step hstep => Step.assumed?_of_bound?_eq_none ?_) rfl
      rcases List.mem_append.1 hstep with hstep | hstep
      · exact bound?_of_mem_unknown_warnings (b := s.values) (List.mem_append_left _ hstep)
      · rw [List.mem_singleton.1 hstep]
        rfl
    | cons c imports => exact cut_course.behind fun step => bound?_of_mem_unknown_warnings

/-- A session ends well with some steps if it makes these and no move fails. -/
theorem solveSession_eq_ok_iff {steps : List Step} :
    r.solveSession s = .ok steps ↔ r.traceSession s = (steps, none) := by
  rw [solveSession_eq_trace]
  cases r.traceSession s with
  | mk steps' fault' => cases fault' <;> simp

/-- A session fails where its last move does. -/
theorem solveSession_iff_trace {steps : List Step} {fault : SolveFault} :
    (r.solveSession s = .ok steps ↔ r.traceSession s = (steps, none)) ∧
      (r.solveSession s = .error fault ↔ (r.traceSession s).2 = some fault) := by
  refine ⟨solveSession_eq_ok_iff, ?_⟩
  rw [solveSession_eq_trace]
  cases r.traceSession s with
  | mk steps' fault' => cases fault' <;> simp

/-- **Turning assumptions off cuts the trace.** If a session assumes nothing, it comes to
the same with the hint that turns assumptions off. Otherwise it ends well with that hint,
even if it fails without: with the steps before its first assumption, and a summary of the
values held there. The lines that say the session have the same behind their faults. -/
theorem solveSession_cut {front back : List String} (hlibraries : s'.libraries = s.libraries)
    (hvalues : s'.values = s.values) (hhints : s.hints = front ++ back)
    (hhints' : s'.hints = front ++ noImplicit :: back) :
    ((∀ step ∈ (r.traceSession s).1, step.assumed? = none) →
      r.solveSession s' = r.solveSession s ∧
        ∀ line line', (Session.read line).session = s → (Session.read line').session = s' →
          (Session.read line').faults = (Session.read line).faults → r.solve line' = r.solve line) ∧
    ((∃ step ∈ (r.traceSession s).1, step.assumed? ≠ none) →
      ∃ held, replay s.values ((r.traceSession s).1.takeWhile (·.assumed?.isNone)) = some held ∧
        r.solveSession s' =
          .ok ((r.traceSession s).1.takeWhile (·.assumed?.isNone) ++ [.summary held]) ∧
        ∀ line', (Session.read line').session = s' →
          r.solve line' = .ok (faultErrors (Session.read line') ++
            ((r.traceSession s).1.takeWhile (·.assumed?.isNone) ++ [.summary held]))) ∧
    ∀ steps fault, (r.solveSession s = .ok steps ↔ r.traceSession s = (steps, none)) ∧
      (r.solveSession s = .error fault ↔ (r.traceSession s).2 = some fault) := by
  have hcut := traceSession_cut (r := r) hlibraries hvalues hhints hhints'
  refine ⟨fun hnone => ?_, fun ⟨step, hstep, hassumed⟩ => ?_, fun _ _ => solveSession_iff_trace⟩
  · have hsame : r.solveSession s' = r.solveSession s := by
      cases hcut with
      | same _ heq => rw [solveSession_eq_trace, heq, ← solveSession_eq_trace]
      | short before step after held hsteps _ hstep _ _ =>
        rw [hsteps] at hnone
        exact absurd (hnone step (List.mem_append_right _ List.mem_cons_self)) hstep
    refine ⟨hsame, ?_⟩
    rintro line line' rfl rfl hfaults
    have herrors : faultErrors (Session.read line') = faultErrors (Session.read line) :=
      congrArg (List.map _) hfaults
    show (r.solveSession _).map (faultErrors _ ++ ·) = (r.solveSession _).map (faultErrors _ ++ ·)
    rw [hsame, herrors]
  · cases hcut with
    | same hnone _ => exact absurd (hnone step hstep) hassumed
    | short before first after held hsteps hbefore hfirst hreplay heq =>
      have htake : (r.traceSession s).1.takeWhile (·.assumed?.isNone) = before := by
        rw [hsteps, List.takeWhile_append_of_pos, List.takeWhile_cons_of_neg, List.append_nil]
        · rwa [Option.isNone_iff_eq_none]
        · intro x hx
          rw [hbefore x hx]
          rfl
      have hok : r.solveSession s' = .ok (before ++ [.summary held]) := by
        rw [solveSession_eq_trace, heq]
      rw [htake]
      refine ⟨held, hreplay, hok, ?_⟩
      rintro line' rfl
      exact congrArg (Except.map _) hok

/-- A catalog that assumes an angle on an axis and then asks for its reference angle. -/
def rightAngles : Catalog := { referenceAngles with implicits := [("a", 90.0)] }

/-- A session that fails behind an assumption ends well without it. -/
theorem solveSession_cut_rightAngles :
    ((empty.registerAll [rightAngles]).solveSession ⟨["angles"], [], .empty⟩).isOk = false ∧
    ∃ held, (empty.registerAll [rightAngles]).solveSession ⟨["angles"], [noImplicit], .empty⟩ =
      .ok [.summary held] ∧ held.isEmpty = true := by
  have hassumes : ((empty.registerAll [rightAngles]).traceSession
      ⟨["angles"], [], .empty⟩).1.any (·.assumed?.isSome) = true := by decide +kernel
  have hcut : (((empty.registerAll [rightAngles]).traceSession
      ⟨["angles"], [], .empty⟩).1.takeWhile (·.assumed?.isNone)).length = 0 := by decide +kernel
  obtain ⟨step, hstep, hassumed⟩ := List.any_eq_true.1 hassumes
  obtain ⟨held, hreplay, hok, -⟩ := (@solveSession_cut (empty.registerAll [rightAngles])
    ⟨["angles"], [], .empty⟩ ⟨["angles"], [noImplicit], .empty⟩ [] [] rfl rfl rfl rfl).2.1
      ⟨step, hstep, Option.isSome_iff_ne_none.1 hassumed⟩
  rw [List.eq_nil_of_length_eq_zero hcut] at hreplay hok
  cases hreplay
  exact ⟨by decide +kernel, _, hok, rfl⟩

end Registry

end Stepwise
