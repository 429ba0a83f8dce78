import Stepwise.Proofs.Solution.Policy

/-!
# The grammar of traces

A trace has its parts in one order: what could not be read, what has no meaning, what
is doubtful, what was derived, and the values at the end. It breaks off where a catalog
is unknown or none is imported:

> `Trace`: the three forms of a trace.

Errors come first and end with the first step of another kind (`Trace.errors_first`),
and a trace has a summary exactly if it does not break off (`Trace.exists_summary_iff`).
-/

namespace Stepwise

/-! ## The parts of a trace -/

/-- A hint without a meaning: neither the one that turns assumptions off nor one that
silences a check of an import. -/
def Meaningless (imports : List Catalog) (hint : String) : Prop :=
  hint ≠ noImplicit ∧ ∀ c ∈ imports, ∀ w ∈ c.warnings, hint ≠ "ignore-" ++ w.id

instance (imports : List Catalog) : DecidablePred (Meaningless imports) := fun hint =>
  inferInstanceAs <| Decidable <|
    hint ≠ noImplicit ∧ ∀ c ∈ imports, ∀ w ∈ c.warnings, hint ≠ "ignore-" ++ w.id

/-- An error for each fault of a line, in the order of the text. -/
def faultErrors (reading : Session.Reading) : List Step :=
  reading.faults.map fun fault => .error fault.message

/-- An error for each active hint without a meaning, in order. -/
def hintErrors (imports : List Catalog) (reading : Session.Reading) : List Step :=
  (reading.session.hints.filter (Meaningless imports ·)).map
    fun hint => .error ("Unknown hint \"" ++ hint ++ "\"")

/-- A warning of a check of an import that is not silenced and that fires. -/
def Step.Warns (imports : List Catalog) (s : Session) (step : Step) : Prop :=
  ∃ c ∈ imports, ∃ w ∈ c.warnings, "ignore-" ++ w.id ∉ s.hints ∧
    ∃ advice, w.check s.values = some advice ∧ step = .hint (w.hint advice)

/-- A solved step, or the assumption of a default of an import. -/
def Step.Moves (imports : List Catalog) (step : Step) : Prop :=
  (∃ s, step = .solved s) ∨
    ∃ c ∈ imports, ∃ i ∈ c.implicits, step = .hint (Move.assumption i.1 i.2)

/-- The forms of a trace. -/
inductive Trace (r : Registry) (reading : Session.Reading) : List Step → Prop
  /-- A catalog is unknown: the first such name is an error, and nothing follows. -/
  | unknown (name : String) : IsFirst (r.get? · = none) reading.session.libraries name →
    Trace r reading (faultErrors reading ++ [.error ("Unknown library \"" ++ name ++ "\"")])
  /-- No catalog is imported: the onboarding, and nothing follows. -/
  | onboarding : reading.session.libraries = [] →
    Trace r reading (faultErrors reading ++ hintErrors [] reading ++ [.hint onboarding])
  /-- Every catalog is known: warnings, moves, and one summary at the end. -/
  | derivation (imports : List Catalog) (warnings moves : List Step) (final : Bindings) :
    imports ≠ [] → reading.session.libraries.map r.get? = imports.map some →
      (∀ step, step ∈ warnings ↔ step.Warns imports reading.session) →
      (∀ step ∈ moves, step.Moves imports) →
        Trace r reading (faultErrors reading ++ hintErrors imports reading ++ warnings ++ moves ++
          [.summary final])

/-! ## Remarks -/

theorem not_mem_knownHints_iff {imports : List Catalog} {hint : String} :
    hint ∉ knownHints imports ↔ Meaningless imports hint := by
  unfold knownHints Meaningless
  rw [List.mem_cons, not_or, List.mem_flatMap]
  refine and_congr_right fun _ => ?_
  constructor
  · rintro hnone c hc w hw rfl
    exact hnone ⟨c, hc, List.mem_map.2 ⟨w, hw, rfl⟩⟩
  · rintro hall ⟨c, hc, hmem⟩
    obtain ⟨w, hw, rfl⟩ := List.mem_map.1 hmem
    exact hall c hc w hw rfl

theorem unknownHintSteps_eq (imports : List Catalog) (reading : Session.Reading) :
    unknownHintSteps imports reading.session.hints = hintErrors imports reading := by
  unfold unknownHintSteps hintErrors
  refine congrArg (List.map _) (List.filter_congr fun hint _ => ?_)
  rw [Bool.eq_iff_iff, Bool.not_eq_true', ← Bool.not_eq_true, List.contains_iff_mem,
    decide_eq_true_iff]
  exact not_mem_knownHints_iff

/-- The unknown hints of a trace are the hints without a meaning. -/
theorem mem_unknownHintSteps_iff {imports : List Catalog} {hints : List String} {step : Step} :
    step ∈ unknownHintSteps imports hints ↔ ∃ hint ∈ hints, Meaningless imports hint ∧
      step = .error ("Unknown hint \"" ++ hint ++ "\"") := by
  unfold unknownHintSteps
  rw [List.mem_map]
  refine exists_congr fun hint => ?_
  rw [List.mem_filter, Bool.not_eq_true', ← Bool.not_eq_true, List.contains_iff_mem,
    not_mem_knownHints_iff, and_assoc, @eq_comm _ step]

/-- The warnings of a trace are those of the checks that are not silenced and that fire. -/
theorem mem_warningSteps_iff {imports : List Catalog} {s : Session} {step : Step} :
    step ∈ warningSteps imports s.hints s.values ↔ step.Warns imports s := by
  unfold warningSteps
  rw [List.mem_filterMap]
  constructor
  · rintro ⟨w, hw, hfires⟩
    obtain ⟨c, hc, hw⟩ := List.mem_flatMap.1 hw
    split at hfires
    · cases hfires
    · next hactive =>
      rw [List.contains_iff_mem] at hactive
      obtain ⟨advice, hcheck, rfl⟩ := Option.map_eq_some_iff.1 hfires
      exact ⟨c, hc, w, hw, hactive, advice, hcheck, rfl⟩
  · rintro ⟨c, hc, w, hw, hactive, advice, hcheck, rfl⟩
    refine ⟨w, List.mem_flatMap.2 ⟨c, hc, hw⟩, ?_⟩
    have hsilent : ¬ s.hints.contains w.bypass = true := fun h => hactive (List.contains_iff_mem.1 h)
    rw [if_neg hsilent, hcheck]
    rfl

/-! ## Moves -/

/-- A step of a run is a solved step, or the assumption of a default whose name had no
value when the run began. -/
theorem Run.step_cases {imports : List Catalog} {assuming : Bool} {b final : Bindings}
    {steps : List Step} (h : Run imports assuming b steps final) {step : Step}
    (hstep : step ∈ steps) :
    (∃ s, step = .solved s) ∨
      ∃ name value, step = .hint (Move.assumption name value) ∧
        (name, value) ∈ implicitsOf imports ∧ assuming = true ∧ b.get? name = none := by
  induction h with
  | stay b => cases hstep
  | @move b final m first value steps hnext hperform hrun ih =>
    rcases List.mem_cons.1 hstep with rfl | hstep
    · rcases Move.perform_eq_ok hperform with ⟨_, _, s, -, -, rfl, -⟩ | ⟨name, rfl, rfl⟩
      · exact .inl ⟨s, rfl⟩
      · rcases nextMove?_cases hnext with ⟨_, _, heq, -⟩ | ⟨_, _, heq, hmem, hunbound, hassuming, -⟩
        · cases heq
        · cases heq
          exact .inr ⟨name, value, rfl, hmem, hassuming, Bindings.contains_eq_false_iff.1 hunbound⟩
    · rcases ih hstep with hsolved | ⟨name, v, rfl, hmem, hassuming, hunbound⟩
      · exact .inl hsolved
      · -- What is unbound behind a move was unbound before it.
        refine .inr ⟨name, v, rfl, hmem, hassuming, ?_⟩
        rw [Bindings.get?_insert] at hunbound
        split at hunbound
        · cases hunbound
        · exact hunbound

/-! ## Errors and summaries -/

theorem isError_of_mem_faultErrors {reading : Session.Reading} {step : Step}
    (h : step ∈ faultErrors reading) : step.isError = true := by
  obtain ⟨fault, -, rfl⟩ := List.mem_map.1 h
  rfl

theorem isError_of_mem_hintErrors {imports : List Catalog} {reading : Session.Reading}
    {step : Step} (h : step ∈ hintErrors imports reading) : step.isError = true := by
  obtain ⟨hint, -, rfl⟩ := List.mem_map.1 h
  rfl

theorem Step.Warns.isError {imports : List Catalog} {s : Session} {step : Step}
    (h : step.Warns imports s) : step.isError = false := by
  obtain ⟨_, _, _, _, _, _, _, rfl⟩ := h
  rfl

theorem Step.Moves.isError {imports : List Catalog} {step : Step} (h : step.Moves imports) :
    step.isError = false := by
  rcases h with ⟨_, rfl⟩ | ⟨_, _, _, _, rfl⟩
  · rfl
  · rfl

/-- Steps that are errors come before steps that are not. -/
def ErrorsFirst (steps : List Step) : Prop :=
  ∃ errors others, steps = errors ++ others ∧ (∀ step ∈ errors, step.isError = true) ∧
    ∀ step ∈ others, step.isError = false

/-- Then no error stands behind a step of another kind. -/
theorem ErrorsFirst.isError {steps before after : List Step} {step : Step} (h : ErrorsFirst steps)
    (hsplit : steps = before ++ step :: after) (hstep : step.isError = false) :
    ∀ s ∈ after, s.isError = false := by
  obtain ⟨errors, others, rfl, herrors, hothers⟩ := h
  have hmem : step ∉ errors := by
    intro hmem
    rw [herrors step hmem] at hstep
    cases hstep
  obtain ⟨mid, -, rfl⟩ := append_eq_append_cons hsplit hmem
  intro s hs
  exact hothers s (List.mem_append_right _ (List.mem_cons_of_mem _ hs))

namespace Trace

variable {r : Registry} {reading : Session.Reading} {steps : List Step}

theorem errors_first (h : Trace r reading steps) : ErrorsFirst steps := by
  have hfront : ∀ imports, ∀ step ∈ faultErrors reading ++ hintErrors imports reading,
      step.isError = true := by
    intro imports step hstep
    rcases List.mem_append.1 hstep with hstep | hstep
    · exact isError_of_mem_faultErrors hstep
    · exact isError_of_mem_hintErrors hstep
  cases h with
  | unknown name hfirst =>
    refine ⟨_, [], (List.append_nil _).symm, ?_, List.forall_mem_nil _⟩
    rw [List.forall_mem_append, List.forall_mem_singleton]
    exact ⟨fun _ => isError_of_mem_faultErrors, rfl⟩
  | onboarding hnil => exact ⟨_, _, rfl, hfront [], List.forall_mem_singleton.2 rfl⟩
  | derivation imports warnings moves final hne hknown hwarnings hmoves =>
    refine ⟨_, warnings ++ moves ++ [.summary final], ?_, hfront imports, ?_⟩
    · simp only [List.append_assoc]
    · rw [List.forall_mem_append, List.forall_mem_append, List.forall_mem_singleton]
      exact ⟨⟨fun step hstep => ((hwarnings step).1 hstep).isError,
        fun step hstep => (hmoves step hstep).isError⟩, rfl⟩

/-- **A trace has a summary exactly if a catalog is imported and every one is known.** -/
theorem exists_summary_iff (h : Trace r reading steps) : (∃ final, .summary final ∈ steps) ↔
    reading.session.libraries ≠ [] ∧
      ∀ name ∈ reading.session.libraries, ∃ c, r.get? name = some c := by
  have hfront : ∀ imports final,
      Step.summary final ∉ faultErrors reading ++ hintErrors imports reading := by
    intro imports final hmem
    rcases List.mem_append.1 hmem with hmem | hmem
    · cases isError_of_mem_faultErrors hmem
    · cases isError_of_mem_hintErrors hmem
  cases h with
  | unknown name hfirst =>
    obtain ⟨hnone, before, after, hlibraries, -⟩ := hfirst
    refine iff_of_false ?_ ?_
    · rintro ⟨final, hmem⟩
      rcases List.mem_append.1 hmem with hmem | hmem
      · cases isError_of_mem_faultErrors hmem
      · cases List.mem_singleton.1 hmem
    · rintro ⟨-, hknown⟩
      obtain ⟨c, hc⟩ := hknown name (hlibraries ▸ List.mem_append_right _ List.mem_cons_self)
      rw [hnone] at hc
      cases hc
  | onboarding hnil =>
    refine iff_of_false ?_ fun hne => hne.1 hnil
    rintro ⟨final, hmem⟩
    rcases List.mem_append.1 hmem with hmem | hmem
    · exact hfront [] final hmem
    · cases List.mem_singleton.1 hmem
  | derivation imports warnings moves final hne hknown hwarnings hmoves =>
    refine iff_of_true ⟨final, List.mem_append_right _ (List.mem_singleton.2 rfl)⟩ ⟨?_, ?_⟩
    · intro hnil
      rw [hnil] at hknown
      exact hne (List.map_eq_nil_iff.1 hknown.symm)
    · intro name hname
      have hmem : r.get? name ∈ imports.map some := by
        rw [← hknown]
        exact List.mem_map.2 ⟨name, hname, rfl⟩
      obtain ⟨c, -, hc⟩ := List.mem_map.1 hmem
      exact ⟨c, hc.symm⟩

end Trace

/-! ## Session lines -/

namespace Registry

variable {r : Registry} {line : String} {steps : List Step}

/-- A name that cannot be resolved is the first that is unknown. -/
theorem isFirst_of_resolve {names : List String} {name : String}
    (h : r.resolve names = .error name) : IsFirst (r.get? · = none) names name := by
  induction names with
  | nil => cases h
  | cons n names ih =>
    rw [resolve] at h
    split at h
    · next hnone =>
      cases h
      exact ⟨hnone, [], names, rfl, List.forall_mem_nil _⟩
    · next c hsome =>
      obtain ⟨hnone, front, back, rfl, hfront⟩ := ih (map_eq_error.1 h)
      refine ⟨hnone, n :: front, back, rfl, List.forall_mem_cons.2 ⟨?_, hfront⟩⟩
      show r.get? n ≠ none
      rw [hsome]
      exact Option.some_ne_none c

/-- The steps of a session: it breaks off, or it makes a run. -/
theorem solveSession_cases {s : Session} (h : r.solveSession s = .ok steps) :
    (∃ name, r.resolve s.libraries = .error name ∧
      steps = [.error ("Unknown library \"" ++ name ++ "\"")]) ∨
    (r.resolve s.libraries = .ok [] ∧ steps = unknownHintSteps [] s.hints ++ [.hint onboarding]) ∨
    ∃ imports moves final, r.resolve s.libraries = .ok imports ∧ imports ≠ [] ∧
      Run imports (!s.hasHint noImplicit) s.values moves final ∧
      steps = unknownHintSteps imports s.hints ++ warningSteps imports s.hints s.values ++
        moves ++ [.summary final] := by
  unfold solveSession at h
  split at h
  · next name hresolve =>
    cases h
    exact .inl ⟨name, hresolve, rfl⟩
  · next hresolve =>
    cases h
    exact .inr (.inl ⟨hresolve, rfl⟩)
  · next imports hne hresolve =>
    obtain ⟨⟨moves, final⟩, hderive, rfl⟩ := map_eq_ok.1 h
    exact .inr (.inr ⟨imports, moves, final, hresolve, hne, (run_of_derive hderive).1, rfl⟩)

/-- **Every trace has one of the forms of the grammar.** It has a summary exactly if a
catalog is imported and every one is known, and no error stands behind a step of another
kind. -/
theorem solve_grammar (h : r.solve line = .ok steps) :
    Trace r (Session.read line) steps ∧
    ((∃ final, .summary final ∈ steps) ↔ (Session.read line).session.libraries ≠ [] ∧
      ∀ name ∈ (Session.read line).session.libraries, ∃ c, r.get? name = some c) ∧
    ∀ before step after, steps = before ++ step :: after → step.isError = false →
      ∀ s ∈ after, s.isError = false := by
  have htrace : Trace r (Session.read line) steps := by
    obtain ⟨rest, hsession, rfl⟩ := map_eq_ok.1 h
    rcases solveSession_cases hsession with ⟨name, hresolve, rfl⟩ | ⟨hresolve, rfl⟩ |
      ⟨imports, moves, final, hresolve, hne, hrun, rfl⟩
    · exact .unknown name (isFirst_of_resolve hresolve)
    · have hnil := List.map_eq_nil_iff.1 (resolve_eq_ok_iff.1 hresolve)
      rw [unknownHintSteps_eq, ← List.append_assoc]
      exact .onboarding hnil
    · rw [unknownHintSteps_eq]
      simp only [← List.append_assoc]
      refine .derivation imports _ moves final hne (resolve_eq_ok_iff.1 hresolve)
        (fun step => mem_warningSteps_iff) fun step hstep => ?_
      rcases hrun.step_cases hstep with hsolved | ⟨name, value, rfl, hmem, -⟩
      · exact .inl hsolved
      · obtain ⟨c, hc, hi⟩ := List.mem_flatMap.1 hmem
        exact .inr ⟨c, hc, _, hi, rfl⟩
  exact ⟨htrace, htrace.exists_summary_iff, fun _ _ _ => htrace.errors_first.isError⟩

/-- A line with a fault, a hint without a meaning, a warning, and moves. -/
theorem solve_grammar_kinematics : ∃ steps,
    builtin.solve "!kinematics x= @odd @ignore-negative-accel dy=5 ay=3 t=1" = .ok steps ∧
      Trace builtin (Session.read "!kinematics x= @odd @ignore-negative-accel dy=5 ay=3 t=1")
        steps ∧
      ∃ final, .summary final ∈ steps := by
  have hends : builtin.ends "!kinematics x= @odd @ignore-negative-accel dy=5 ay=3 t=1" = true := by
    decide +kernel
  obtain ⟨steps, final, hsolve, hsummary⟩ := exists_steps_of_ends hends
  exact ⟨steps, hsolve, (solve_grammar hsolve).1, final, hsummary⟩

end Registry

end Stepwise
