import Mathlib.Data.List.Basic
import Stepwise.Proofs.Solution.Grammar

/-!
# What a hint can change

An active hint turns assumptions off, silences checks, or is an error, and nothing else.
A warning is told by its last edit, which activates the hint that silences its check:

> `warningSteps_insert`: one more hint takes away the warnings whose last edit would
> activate it, and leaves the others as they are.

Of all its hints the moves of a session see one bit, whether assumptions are on. So
sessions that differ in other hints alone fail alike, or have the same solved steps,
assumptions and summary (`solveSession_silenced`).
-/

namespace Stepwise

/-- The hint that the last edit of a step activates. -/
def Step.silencer? : Step → Option String
  | .hint h => h.buttons.getLast?.bind (·.hints.head?)
  | _ => none

/-- Whether a step is the error for a hint without a meaning. -/
def Step.isUnknownHint : Step → Bool
  | .error message => "Unknown hint \"".toList.isPrefixOf message.toList
  | _ => false

/-! ## Kinds of hints -/

/-- No check is silenced by the hint that turns assumptions off. -/
theorem noImplicit_ne_bypass (id : String) : noImplicit ≠ "ignore-" ++ id := by
  intro heq
  have hchars := congrArg String.toList heq
  rw [String.toList_append] at hchars
  exact absurd (List.cons.inj hchars).1 (by decide)

/-- A check is known by the hint that silences it. -/
theorem Warning.bypass_eq_iff {w : Warning} {id : String} : w.bypass = "ignore-" ++ id ↔ w.id = id := by
  unfold bypass
  rw [← String.toList_inj, String.toList_append, String.toList_append, List.append_cancel_left_eq,
    String.toList_inj]

theorem silencer?_warning (w : Warning) (advice : Advice) :
    (Step.hint (w.hint advice)).silencer? = some w.bypass := by
  show (advice.actions ++ [Button.activating "Ignore this warning" w.bypass]).getLast?.bind _ = _
  rw [List.getLast?_concat]
  rfl

/-! ## One more hint -/

/-- **One more hint silences the checks that it is for**, and no others. -/
theorem warningSteps_insert (imports : List Catalog) (front back : List String) (hint : String)
    (b : Bindings) : warningSteps imports (front ++ hint :: back) b =
      (warningSteps imports (front ++ back) b).filter (·.silencer? != some hint) := by
  unfold warningSteps
  rw [List.filter_filterMap]
  refine List.filterMap_congr fun w _ => ?_
  have hcontains : (front ++ hint :: back).contains w.bypass =
      ((front ++ back).contains w.bypass || w.bypass == hint) := by
    rw [List.contains_append, List.contains_append, List.contains_cons, Bool.or_comm (w.bypass == hint),
      Bool.or_assoc]
  rw [hcontains]
  by_cases hactive : (front ++ back).contains w.bypass = true
  · rw [hactive]
    rfl
  · rw [Bool.not_eq_true] at hactive
    rw [hactive, Bool.false_or, if_neg Bool.false_ne_true]
    cases w.check b with
    | none => split <;> rfl
    | some advice =>
      show _ = if (Step.hint (w.hint advice)).silencer? != some hint then _ else _
      rw [silencer?_warning]
      by_cases hsame : w.bypass = hint
      · rw [if_pos (beq_iff_eq.2 hsame), hsame]
        simp
      · simp [hsame]

/-- One more hint that has a meaning is no error. -/
theorem unknownHintSteps_insert {imports : List Catalog} {hint : String}
    (h : hint ∈ knownHints imports) (front back : List String) :
    unknownHintSteps imports (front ++ hint :: back) = unknownHintSteps imports (front ++ back) := by
  unfold unknownHintSteps
  rw [List.filter_append, List.filter_append, List.filter_cons_of_neg]
  rw [List.contains_iff_mem.2 h]
  exact Bool.false_ne_true

/-! ## Steps that are not about hints -/

/-- The steps of a session that are neither warnings nor errors for hints. -/
inductive Step.Plain : Step → Prop
  | unknownLibrary (name : String) : Plain (.error ("Unknown library \"" ++ name ++ "\""))
  | onboarding : Plain (.hint onboarding)
  | solved (s : Solved) : Plain (.solved s)
  | assumption (name : String) (value : Float) : Plain (.hint (Move.assumption name value))
  | summary (values : Bindings) : Plain (.summary values)

theorem Run.plain {imports : List Catalog} {assuming : Bool} {b final : Bindings}
    {steps : List Step} (h : Run imports assuming b steps final) {step : Step}
    (hstep : step ∈ steps) : step.Plain := by
  rcases h.step_cases hstep with ⟨s, rfl⟩ | ⟨name, value, rfl, -⟩
  · exact .solved s
  · exact .assumption name value

theorem Step.Plain.isUnknownHint {step : Step} (h : step.Plain) : step.isUnknownHint = false := by
  cases h with
  | unknownLibrary name =>
    show "Unknown hint \"".toList.isPrefixOf _ = false
    rw [String.toList_append, String.toList_append]
    rfl
  | onboarding => rfl
  | solved s => rfl
  | assumption name value => rfl
  | summary values => rfl

theorem Step.Plain.silencer?_ne {step : Step} (h : step.Plain) (id : String) :
    step.silencer? ≠ some ("ignore-" ++ id) := by
  cases h with
  | assumption name value => exact fun heq => noImplicit_ne_bypass id (Option.some.inj heq)
  | unknownLibrary name => exact nofun
  | onboarding => exact nofun
  | solved s => exact nofun
  | summary values => exact nofun

section Plain

variable {rest : List Step}

theorem filter_isUnknownHint (h : ∀ step ∈ rest, step.Plain) :
    rest.filter (fun step => !step.isUnknownHint) = rest := by
  rw [List.filter_eq_self]
  intro step hstep
  rw [(h step hstep).isUnknownHint]
  rfl

theorem filter_silencer (h : ∀ step ∈ rest, step.Plain) (id : String) :
    rest.filter (·.silencer? != some ("ignore-" ++ id)) = rest := by
  rw [List.filter_eq_self]
  intro step hstep
  exact bne_iff_ne.2 ((h step hstep).silencer?_ne id)

end Plain

theorem isUnknownHint_of_mem {imports : List Catalog} {hints : List String} {step : Step}
    (h : step ∈ unknownHintSteps imports hints) : step.isUnknownHint = true := by
  obtain ⟨hint, -, rfl⟩ := List.mem_map.1 h
  show "Unknown hint \"".toList.isPrefixOf _ = true
  rw [String.toList_append, String.toList_append, List.append_assoc, List.isPrefixOf_iff_prefix]
  exact List.prefix_append ..

/-! ## Sessions -/

namespace Registry

variable {r : Registry} {s s' : Session}

/-- **The moves of a session see one bit of its hints.** Sessions that agree on it, on
their catalogs and on their values fail alike, or differ in errors for hints and in
warnings alone. -/
theorem solveSession_alike (hlibraries : s'.libraries = s.libraries)
    (hvalues : s'.values = s.values)
    (hbit : s'.hasHint noImplicit = s.hasHint noImplicit) :
    (∃ fault, r.solveSession s = .error fault ∧ r.solveSession s' = .error fault) ∨
    (∃ rest, (∀ step ∈ rest, step.Plain) ∧ r.solveSession s = .ok rest ∧
      r.solveSession s' = .ok rest) ∨
    ∃ imports rest, r.resolve s.libraries = .ok imports ∧ (∀ step ∈ rest, step.Plain) ∧
      r.solveSession s = .ok (unknownHintSteps imports s.hints ++
        warningSteps imports s.hints s.values ++ rest) ∧
      r.solveSession s' = .ok (unknownHintSteps imports s'.hints ++
        warningSteps imports s'.hints s.values ++ rest) := by
  unfold solveSession
  rw [hlibraries, hvalues, hbit]
  cases r.resolve s.libraries with
  | error name =>
    exact .inr (.inl ⟨_, List.forall_mem_singleton.2 (.unknownLibrary name), rfl, rfl⟩)
  | ok imports =>
    cases imports with
    | nil =>
      refine .inr (.inr ⟨[], [.hint onboarding], rfl, ?_, ?_, ?_⟩)
      · exact List.forall_mem_singleton.2 .onboarding
      · exact congrArg (fun l => Except.ok (l ++ _)) (List.append_nil _).symm
      · exact congrArg (fun l => Except.ok (l ++ _)) (List.append_nil _).symm
    | cons c imports =>
      dsimp only
      cases hderive : derive (c :: imports) (!s.hasHint noImplicit) s.values with
      | error fault => exact .inl ⟨fault, rfl, rfl⟩
      | ok result =>
        obtain ⟨moves, final⟩ := result
        refine .inr (.inr ⟨c :: imports, moves ++ [.summary final], rfl, ?_, ?_, ?_⟩)
        · rw [List.forall_mem_append, List.forall_mem_singleton]
          exact ⟨fun _ => (run_of_derive hderive).1.plain, .summary final⟩
        · exact congrArg Except.ok (List.append_assoc ..)
        · exact congrArg Except.ok (List.append_assoc ..)

/-- The steps of a line that pass a test are those among its faults and those of its session. -/
theorem map_filter_solve (p : Step → Bool) (line : String) : (r.solve line).map (·.filter p) =
    ((r.solveSession (Session.read line).session).map (·.filter p)).map
      ((faultErrors (Session.read line)).filter p ++ ·) := by
  show ((r.solveSession _).map (faultErrors _ ++ ·)).map _ = _
  cases r.solveSession (Session.read line).session with
  | error fault => rfl
  | ok steps => exact congrArg Except.ok (List.filter_append ..)

theorem filter_isProgress_faultErrors (reading : Session.Reading) :
    (faultErrors reading).filter Step.isProgress = [] := by
  rw [List.filter_eq_nil_iff]
  intro step hstep
  obtain ⟨fault, -, rfl⟩ := List.mem_map.1 hstep
  exact Bool.false_ne_true

/-- A fault of a line silences no check. -/
theorem filter_silencer_faultErrors (reading : Session.Reading) (hint : String) :
    (faultErrors reading).filter (fun step => !step.isUnknownHint && step.silencer? != some hint) =
      (faultErrors reading).filter (fun step => !step.isUnknownHint) := by
  refine List.filter_congr fun step hstep => ?_
  obtain ⟨fault, -, rfl⟩ := List.mem_map.1 hstep
  exact Bool.and_true _

theorem filter_isProgress_remarks (imports : List Catalog) (hints : List String) (b : Bindings) :
    (unknownHintSteps imports hints ++ warningSteps imports hints b).filter Step.isProgress = [] := by
  rw [List.filter_eq_nil_iff]
  intro step hstep
  have hremark : step ∈ remarks imports ⟨⟨[], hints, b⟩, []⟩ := hstep
  rw [isProgress_of_mem_remarks hremark]
  exact Bool.false_ne_true

theorem progress_congr (hlibraries : s'.libraries = s.libraries) (hvalues : s'.values = s.values)
    (hbit : s'.hasHint noImplicit = s.hasHint noImplicit) :
    (r.solveSession s').map (·.filter Step.isProgress) =
      (r.solveSession s).map (·.filter Step.isProgress) := by
  rcases solveSession_alike hlibraries hvalues hbit with
    ⟨fault, hs, hs'⟩ | ⟨rest, -, hs, hs'⟩ | ⟨imports, rest, -, -, hs, hs'⟩
  · rw [hs, hs']
  · rw [hs, hs']
  · rw [hs, hs']
    refine congrArg Except.ok ?_
    dsimp only
    rw [List.filter_append _ rest, List.filter_append _ rest, filter_isProgress_remarks,
      filter_isProgress_remarks]

/-- Without the errors for hints, a session has its warnings and what is not about hints. -/
theorem filter_visible {imports : List Catalog} {hints : List String} {b : Bindings}
    {rest : List Step} (hrest : ∀ step ∈ rest, step.Plain) :
    (unknownHintSteps imports hints ++ warningSteps imports hints b ++ rest).filter
      (fun step => !step.isUnknownHint) = warningSteps imports hints b ++ rest := by
  have hunknown : (unknownHintSteps imports hints).filter (fun step => !step.isUnknownHint) = [] := by
    rw [List.filter_eq_nil_iff]
    intro step hstep
    rw [isUnknownHint_of_mem hstep]
    exact Bool.false_ne_true
  have hwarnings : (warningSteps imports hints b).filter (fun step => !step.isUnknownHint) =
      warningSteps imports hints b := by
    rw [List.filter_eq_self]
    intro step hstep
    obtain ⟨_, _, _, _, _, _, _, rfl⟩ := (mem_warningSteps_iff (s := ⟨[], hints, b⟩)).1 hstep
    rfl
  rw [List.filter_append, List.filter_append, hunknown, hwarnings, filter_isUnknownHint hrest,
    List.nil_append]

/-- **A hint that silences a check takes away the warnings of that check**, and changes
no other step but the errors for hints. -/
theorem silenced_congr {id : String} {front back : List String}
    (hlibraries : s'.libraries = s.libraries) (hvalues : s'.values = s.values)
    (hhints : s.hints = front ++ back) (hhints' : s'.hints = front ++ ("ignore-" ++ id) :: back) :
    (r.solveSession s').map (·.filter fun step => !step.isUnknownHint) =
      (r.solveSession s).map (·.filter fun step =>
        !step.isUnknownHint && step.silencer? != some ("ignore-" ++ id)) := by
  have hbit : s'.hasHint noImplicit = s.hasHint noImplicit := by
    unfold Session.hasHint
    rw [hhints, hhints', List.contains_append, List.contains_append, List.contains_cons,
      beq_false_of_ne (noImplicit_ne_bypass id), Bool.false_or]
  -- First the errors for hints go, then the warnings of the check.
  have hsplit : ∀ steps : List Step, steps.filter (fun step =>
      !step.isUnknownHint && step.silencer? != some ("ignore-" ++ id)) =
        (steps.filter fun step => !step.isUnknownHint).filter
          (·.silencer? != some ("ignore-" ++ id)) := by
    intro steps
    rw [List.filter_filter]
    exact List.filter_congr fun step _ => Bool.and_comm ..
  simp only [hsplit]
  rcases solveSession_alike hlibraries hvalues hbit with
    ⟨fault, hs, hs'⟩ | ⟨rest, hrest, hs, hs'⟩ | ⟨imports, rest, -, hrest, hs, hs'⟩
  · rw [hs, hs']
    rfl
  · rw [hs, hs']
    refine congrArg Except.ok ?_
    dsimp only
    rw [filter_isUnknownHint hrest, filter_silencer hrest]
  · rw [hs, hs']
    refine congrArg Except.ok ?_
    dsimp only
    rw [filter_visible hrest, filter_visible hrest, List.filter_append, filter_silencer hrest,
      hhints, hhints', warningSteps_insert]

/-- The steps whose last edit silences a check are the warnings of the checks of that name. -/
theorem silencer?_eq_some_iff {steps : List Step} (h : r.solveSession s = .ok steps) {step : Step}
    (hstep : step ∈ steps) (id : String) : step.silencer? = some ("ignore-" ++ id) ↔
      ∃ c ∈ r.importsOf s, ∃ w ∈ c.warnings, w.id = id ∧
        ∃ advice, w.check s.values = some advice ∧ step = .hint (w.hint advice) := by
  constructor
  · intro hsilencer
    have hnotPlain : ¬ step.Plain := fun hplain => hplain.silencer?_ne id hsilencer
    rcases solveSession_alike (r := r) (s := s) rfl rfl rfl with
      ⟨fault, hs, -⟩ | ⟨rest, hrest, hs, -⟩ | ⟨imports, rest, hresolve, hrest, hs, -⟩
    · rw [h] at hs
      cases hs
    · rw [h] at hs
      cases hs
      exact absurd (hrest step hstep) hnotPlain
    · rw [h] at hs
      cases hs
      rw [importsOf_eq hresolve]
      rcases List.mem_append.1 hstep with hstep | hstep
      · rcases List.mem_append.1 hstep with hstep | hstep
        · obtain ⟨hint, -, rfl⟩ := List.mem_map.1 hstep
          cases hsilencer
        · obtain ⟨c, hc, w, hw, -, advice, hcheck, rfl⟩ := mem_warningSteps_iff.1 hstep
          rw [silencer?_warning] at hsilencer
          exact ⟨c, hc, w, hw, Warning.bypass_eq_iff.1 (Option.some.inj hsilencer), advice, hcheck,
            rfl⟩
      · exact absurd (hrest step hstep) hnotPlain
  · rintro ⟨c, -, w, -, hid, advice, -, rfl⟩
    rw [silencer?_warning, Warning.bypass_eq_iff.2 hid]

/-- **Hints do no more than silence.** Sessions with the same catalogs and values that agree
on whether assumptions are on fail with the same fault, or have the same solved steps,
assumptions and summary, and so have the lines that say them. One more hint of the form
`ignore-id` takes away the warnings of the checks of that name, which are known by their
last edit, and changes no other step but the errors for hints without a meaning. -/
theorem solveSession_silenced (hlibraries : s'.libraries = s.libraries)
    (hvalues : s'.values = s.values) :
    ((noImplicit ∈ s'.hints ↔ noImplicit ∈ s.hints) →
      (r.solveSession s').map (·.filter Step.isProgress) =
          (r.solveSession s).map (·.filter Step.isProgress) ∧
        ∀ line line', (Session.read line).session = s → (Session.read line').session = s' →
          (r.solve line').map (·.filter Step.isProgress) =
            (r.solve line).map (·.filter Step.isProgress)) ∧
    ∀ id front back, s.hints = front ++ back → s'.hints = front ++ ("ignore-" ++ id) :: back →
      (r.solveSession s').map (·.filter fun step => !step.isUnknownHint) =
          (r.solveSession s).map (·.filter fun step =>
            !step.isUnknownHint && step.silencer? != some ("ignore-" ++ id)) ∧
        (∀ line line', (Session.read line).session = s → (Session.read line').session = s' →
          (Session.read line').faults = (Session.read line).faults →
            (r.solve line').map (·.filter fun step => !step.isUnknownHint) =
              (r.solve line).map (·.filter fun step =>
                !step.isUnknownHint && step.silencer? != some ("ignore-" ++ id))) ∧
        ∀ steps, r.solveSession s = .ok steps → ∀ step ∈ steps,
          (step.silencer? = some ("ignore-" ++ id) ↔
            ∃ c ∈ r.importsOf s, ∃ w ∈ c.warnings, w.id = id ∧
              ∃ advice, w.check s.values = some advice ∧ step = .hint (w.hint advice)) := by
  constructor
  · intro hbit
    have hbit : s'.hasHint noImplicit = s.hasHint noImplicit := by
      unfold Session.hasHint
      rw [Bool.eq_iff_iff, List.contains_iff_mem, List.contains_iff_mem]
      exact hbit
    have hprogress := progress_congr (r := r) hlibraries hvalues hbit
    refine ⟨hprogress, ?_⟩
    rintro line line' rfl rfl
    rw [map_filter_solve, map_filter_solve, hprogress, filter_isProgress_faultErrors,
      filter_isProgress_faultErrors]
  · intro id front back hhints hhints'
    have hsilenced := silenced_congr (r := r) hlibraries hvalues hhints hhints'
    refine ⟨hsilenced, ?_, fun steps hsteps step hstep => silencer?_eq_some_iff hsteps hstep id⟩
    rintro line line' rfl rfl hfaults
    have herrors : faultErrors (Session.read line') = faultErrors (Session.read line) :=
      congrArg (List.map _) hfaults
    rw [map_filter_solve, map_filter_solve, hsilenced, herrors, filter_silencer_faultErrors]

/-- A hint that silences one of three checks that fire, beside one without a meaning. -/
theorem solveSession_silenced_kinematics :
    (builtin.solveSession ⟨["kinematics"], ["odd", "ignore-negative-accel", noImplicit],
        .ofList [("ay", 3.0), ("dy", 5.0)]⟩).map (·.filter fun step => !step.isUnknownHint) =
      (builtin.solveSession ⟨["kinematics"], ["odd", noImplicit],
        .ofList [("ay", 3.0), ("dy", 5.0)]⟩).map (·.filter fun step =>
          !step.isUnknownHint && step.silencer? != some "ignore-negative-accel") ∧
    (builtin.solveSession ⟨["kinematics"], ["odd", noImplicit],
        .ofList [("ay", 3.0), ("dy", 5.0)]⟩).toOption.map (·.filterMap Step.silencer?) =
      some ["ignore-negative-displacement", "ignore-negative-accel", "ignore-realistic-gravity"] ∧
    (builtin.solveSession ⟨["kinematics"], ["odd", "ignore-negative-accel", noImplicit],
        .ofList [("ay", 3.0), ("dy", 5.0)]⟩).map (·.filter Step.isProgress) =
      (builtin.solveSession ⟨["kinematics"], ["odd", noImplicit],
        .ofList [("ay", 3.0), ("dy", 5.0)]⟩).map (·.filter Step.isProgress) := by
  have hsilenced := @solveSession_silenced builtin
    ⟨["kinematics"], ["odd", noImplicit], .ofList [("ay", 3.0), ("dy", 5.0)]⟩
    ⟨["kinematics"], ["odd", "ignore-negative-accel", noImplicit],
      .ofList [("ay", 3.0), ("dy", 5.0)]⟩ rfl rfl
  refine ⟨(hsilenced.2 "negative-accel" ["odd"] [noImplicit] rfl rfl).1, by decide +kernel,
    (hsilenced.1 (by decide)).1⟩

end Registry

end Stepwise
