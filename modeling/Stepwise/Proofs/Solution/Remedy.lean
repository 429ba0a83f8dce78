import Stepwise.Proofs.Solution.Advice
import Stepwise.Proofs.Solution.FaultFree
import Stepwise.Proofs.Solution.Grammar

/-!
# Hints and their remedies

A hint has a source: the onboarding, a check, or the default of a name. Each of its
buttons is an edit that the source is content with:

> `Suggests.exists_remedies`: after the edit the source of a hint suggests nothing.

What a hint says tells its source (`Suggests.source_eq`), so a hint whose button was
pressed does not come back. The edited line has no fault, since the button and finite
values can be written, and no hint that the button activates is without a meaning.
-/

namespace Stepwise

/-! ## Where hints come from -/

/-- What gives rise to a hint. -/
inductive Source
  | onboarding
  | check (w : Warning)
  | default (name : String)

/-- A hint that there is for a session under some imports, with its source. -/
inductive Suggests (imports : List Catalog) (s : Session) : Source → Hint → Prop
  /-- Nothing is imported. -/
  | onboarding : imports = [] → Suggests imports s .onboarding onboarding
  /-- A check that is not silenced fires. -/
  | check (w : Warning) (advice : Advice) : w ∈ imports.flatMap (·.warnings) →
      w.bypass ∉ s.hints → w.check s.values = some advice →
        Suggests imports s (.check w) (w.hint advice)
  /-- A name without a value has a default, and assumptions are not turned off. -/
  | default (name : String) (value : Float) : (name, value) ∈ implicitsOf imports →
      noImplicit ∉ s.hints → s.values.get? name = none →
        Suggests imports s (.default name) (Move.assumption name value)

namespace Registry

variable {r : Registry} {s : Session} {imports : List Catalog} {steps : List Step}

/-- Every hint of a trace has a source. -/
theorem suggests_of_mem {hint : Hint} (h : r.solveSession s = .ok steps)
    (hhint : .hint hint ∈ steps) :
    ∃ imports source, r.resolve s.libraries = .ok imports ∧ Suggests imports s source hint := by
  have hunknown : ∀ imports, .hint hint ∉ unknownHintSteps imports s.hints := by
    intro imports hmem
    obtain ⟨_, -, -, heq⟩ := mem_unknownHintSteps_iff.1 hmem
    cases heq
  rcases solveSession_cases h with ⟨name, -, rfl⟩ | ⟨hresolve, rfl⟩ |
    ⟨imports, moves, final, hresolve, -, hrun, rfl⟩
  · cases List.mem_singleton.1 hhint
  · rcases List.mem_append.1 hhint with hmem | hmem
    · exact absurd hmem (hunknown [])
    · cases List.mem_singleton.1 hmem
      exact ⟨[], _, hresolve, .onboarding rfl⟩
  · simp only [List.mem_append, List.mem_singleton, reduceCtorEq, or_false] at hhint
    rcases hhint with (hmem | hmem) | hmem
    · exact absurd hmem (hunknown imports)
    · obtain ⟨c, hc, w, hw, hactive, advice, hcheck, heq⟩ := mem_warningSteps_iff.1 hmem
      cases heq
      exact ⟨imports, _, hresolve, .check w advice (List.mem_flatMap.2 ⟨c, hc, hw⟩) hactive hcheck⟩
    · rcases hrun.step_cases hmem with ⟨solved, heq⟩ | ⟨name, value, heq, hi, hassuming, hunbound⟩
      · cases heq
      · cases heq
        rw [Bool.not_eq_true', ← Bool.not_eq_true] at hassuming
        refine ⟨imports, _, hresolve, .default name value hi ?_ hunbound⟩
        exact fun hoff => hassuming (List.contains_iff_mem.2 hoff)

/-- If every import is known, the errors of a trace are the hints without a meaning. -/
theorem error_mem_iff {message : String} (h : r.solveSession s = .ok steps)
    (hresolve : r.resolve s.libraries = .ok imports) :
    .error message ∈ steps ↔ ∃ token ∈ s.hints, Meaningless imports token ∧
      message = "Unknown hint \"" ++ token ++ "\"" := by
  have hunknown : .error message ∈ unknownHintSteps imports s.hints ↔
      ∃ token ∈ s.hints, Meaningless imports token ∧
        message = "Unknown hint \"" ++ token ++ "\"" := by
    simp only [mem_unknownHintSteps_iff, Step.error.injEq]
  rcases solveSession_cases h with ⟨name, hname, -⟩ | ⟨hnone, rfl⟩ |
    ⟨imports', moves, final, himports, -, hrun, rfl⟩
  · rw [hresolve] at hname
    cases hname
  · rw [hresolve] at hnone
    cases hnone
    rw [← hunknown, List.mem_append, List.mem_singleton]
    exact or_iff_left (fun heq => nomatch heq)
  · rw [hresolve] at himports
    cases himports
    have hwarning : .error message ∉ warningSteps imports s.hints s.values := by
      intro hmem
      cases (mem_warningSteps_iff.1 hmem).isError
    have hmove : .error message ∉ moves := by
      intro hmem
      rcases hrun.step_cases hmem with ⟨_, heq⟩ | ⟨_, _, heq, -⟩
      · cases heq
      · cases heq
    simp only [← hunknown, List.mem_append, List.mem_singleton, hwarning, hmove, reduceCtorEq,
      or_false]

end Registry

/-! ## One text, one source -/

section Sources

variable {r : Registry} {s s' : Session} {names names' : List String}
  {imports imports' : List Catalog} {source source' : Source} {hint hint' : Hint}

theorem Registry.mem_checks (hresolve : r.resolve names = .ok imports) {w : Warning}
    (hw : w ∈ imports.flatMap (·.warnings)) : w ∈ r.checks := by
  obtain ⟨c, hc, hw⟩ := List.mem_flatMap.1 hw
  obtain ⟨name, -, hget⟩ := mem_of_resolve hresolve hc
  exact List.mem_flatMap.2 ⟨c, mem_of_get? hget, hw⟩

theorem Registry.mem_defaults (hresolve : r.resolve names = .ok imports) {i : String × Float}
    (hi : i ∈ implicitsOf imports) : i ∈ implicitsOf r.catalogs := by
  obtain ⟨c, hc, hi⟩ := List.mem_flatMap.1 hi
  obtain ⟨name, -, hget⟩ := mem_of_resolve hresolve hc
  exact List.mem_flatMap.2 ⟨c, mem_of_get? hget, hi⟩

namespace Suggests

/-- Only an assumption says that a name is implicitly something. -/
theorem saysImplicit_iff (hr : r.Helpful) (hresolve : r.resolve names = .ok imports)
    (h : Suggests imports s source hint) :
    saysImplicit hint.message = true ↔ ∃ name, source = .default name := by
  cases h with
  | onboarding _ => exact iff_of_false (by decide) fun ⟨_, heq⟩ => nomatch heq
  | check w advice hw _ hcheck =>
    have htext : saysImplicit (w.hint advice).message = false :=
      (hr.texts w (Registry.mem_checks hresolve hw) _ advice hcheck).2
    rw [htext]
    exact iff_of_false Bool.false_ne_true fun ⟨_, heq⟩ => nomatch heq
  | default name value hi _ _ =>
    have hname := (hr.defaults _ (Registry.mem_defaults hresolve hi)).1
    exact iff_of_true (saysImplicit_assumption hname value) ⟨name, rfl⟩

/-- An assumption begins with the name that it is about. -/
theorem subject_eq (hr : r.Helpful) (hresolve : r.resolve names = .ok imports) {name : String}
    (h : Suggests imports s (.default name) hint) : subject hint.message = name.toList := by
  cases h with
  | default _ value hi _ _ =>
    exact subject_assumption (hr.defaults _ (Registry.mem_defaults hresolve hi)).1 value

/-- **What a hint says tells its source.** -/
theorem source_eq (hr : r.Helpful) (hresolve : r.resolve names = .ok imports)
    (hresolve' : r.resolve names' = .ok imports') (h : Suggests imports s source hint)
    (h' : Suggests imports' s' source' hint') (hmessage : hint.message = hint'.message) :
    source = source' := by
  have hdefault := h.saysImplicit_iff hr hresolve
  have hdefault' := h'.saysImplicit_iff hr hresolve'
  rw [← hmessage] at hdefault'
  by_cases hsays : saysImplicit hint.message = true
  · obtain ⟨name, rfl⟩ := hdefault.1 hsays
    obtain ⟨name', rfl⟩ := hdefault'.1 hsays
    have hsubject := h.subject_eq hr hresolve
    rw [hmessage, h'.subject_eq hr hresolve', String.toList_inj] at hsubject
    rw [hsubject]
  · rw [hdefault] at hsays
    rw [← hdefault, hdefault'] at hsays
    cases h with
    | onboarding _ =>
      cases h' with
      | onboarding _ => rfl
      | check w advice hw _ hcheck =>
        exact absurd hmessage.symm (hr.texts w (Registry.mem_checks hresolve' hw) _ _ hcheck).1
      | default name => exact absurd ⟨name, rfl⟩ hsays
    | check w advice hw _ hcheck =>
      cases h' with
      | onboarding _ =>
        exact absurd hmessage (hr.texts w (Registry.mem_checks hresolve hw) _ _ hcheck).1
      | check w' advice' hw' _ hcheck' =>
        rw [hr.distinct w (Registry.mem_checks hresolve hw) w' (Registry.mem_checks hresolve' hw')
          _ _ _ _ hcheck hcheck' hmessage]
      | default name => exact absurd ⟨name, rfl⟩ hsays
    | default name => exact absurd (hdefault'.1 (hdefault.2 ⟨name, rfl⟩)) hsays

end Suggests

end Sources

/-! ## What buttons do -/

/-- A button that does what the source of its hint asks for: a line can say the edit,
behind it every import is known and the source suggests nothing, and a hint without a
meaning had none before. -/
structure Remedies (r : Registry) (s : Session) (source : Source) (before after : List Catalog)
    (button : Button) : Prop where
  writable : button.Writable
  resolve : r.resolve (s.apply button).libraries = .ok after
  quiet : ∀ hint, ¬ Suggests after (s.apply button) source hint
  hints : ∀ token ∈ (s.apply button).hints, Meaningless after token →
    token ∈ s.hints ∧ Meaningless before token

/-- What has no meaning under some imports has none under fewer. -/
theorem Meaningless.anti {imports imports' : List Catalog} {hint : String}
    (hsubset : imports ⊆ imports') (h : Meaningless imports' hint) : Meaningless imports hint :=
  ⟨h.1, fun c hc => h.2 c (hsubset hc)⟩

section Buttons

variable {r : Registry} {s : Session} {source : Source} {imports : List Catalog} {button : Button}

/-- A button of the onboarding imports one catalog. -/
theorem importing_of_mem_onboarding (h : button ∈ onboarding.buttons) :
    ∃ name, button.libraries = [name] ∧ button.hints = [] ∧ button.Writable := by
  simp only [onboarding, List.mem_cons, List.not_mem_nil, or_false] at h
  rcases h with rfl | rfl
  · exact ⟨"kinematics", rfl, rfl, (Button.writable_importing _ (by decide)).recommended⟩
  · exact ⟨"slopes", rfl, rfl, Button.writable_importing _ (by decide)⟩

theorem remedies_onboarding (hr : r.Helpful) (hresolve : r.resolve s.libraries = .ok [])
    (hbutton : button ∈ onboarding.buttons) : ∃ c, Remedies r s .onboarding [] [c] button := by
  obtain ⟨name, hlibraries, hhints, hwritable⟩ := importing_of_mem_onboarding hbutton
  obtain ⟨c, hc⟩ := hr.onboarding button hbutton name (hlibraries ▸ List.mem_cons_self)
  have hnone : s.libraries = [] := List.map_eq_nil_iff.1 (Registry.resolve_eq_ok_iff.1 hresolve)
  refine ⟨c, hwritable, ?_, ?_, ?_⟩
  · show r.resolve (Session.addMissing s.libraries button.libraries) = _
    rw [hnone, hlibraries, Registry.resolve_eq_ok_iff]
    show [r.get? name] = [some c]
    rw [hc]
  · intro hint h
    cases h with
    | onboarding hnil => cases hnil
  · show ∀ token ∈ Session.addMissing s.hints button.hints, _
    rw [hhints]
    exact fun token htoken hmeaningless =>
      ⟨htoken, hmeaningless.anti (List.nil_subset _)⟩

/-- A button that changes values alone. -/
theorem remedies_of_values (hresolve : r.resolve s.libraries = .ok imports)
    (hwritable : button.Writable) (hlibraries : button.libraries = []) (hhints : button.hints = [])
    (hquiet : ∀ hint, ¬ Suggests imports (s.apply button) source hint) :
    Remedies r s source imports imports button where
  writable := hwritable
  resolve := by
    show r.resolve (Session.addMissing s.libraries button.libraries) = _
    rw [hlibraries]
    exact hresolve
  quiet := hquiet
  hints := by
    show ∀ token ∈ Session.addMissing s.hints button.hints, _
    rw [hhints]
    exact fun token htoken hmeaningless => ⟨htoken, hmeaningless⟩

/-- A button that activates a hint with a meaning. -/
theorem remedies_activating {text token : String} (hresolve : r.resolve s.libraries = .ok imports)
    (hname : IsName token) (hmeaning : ¬ Meaningless imports token)
    (hquiet : ∀ t : Session, token ∈ t.hints → ∀ hint, ¬ Suggests imports t source hint) :
    Remedies r s source imports imports (.activating text token) where
  writable := Button.writable_activating text hname
  resolve := hresolve
  quiet := hquiet _ (Session.mem_addMissing_iff.2 (.inr List.mem_cons_self))
  hints := by
    intro t ht hmeaningless
    rcases Session.mem_addMissing_iff.1 ht with ht | ht
    · exact ⟨ht, hmeaningless⟩
    · rw [List.mem_singleton.1 ht] at hmeaningless
      exact absurd hmeaningless hmeaning

/-- **Every button of a hint is a remedy.** -/
theorem Suggests.exists_remedies {hint : Hint} (hr : r.Helpful)
    (hfinite : ∀ entry ∈ s.values.entries, Number.isFinite entry.2 = true)
    (hresolve : r.resolve s.libraries = .ok imports) (h : Suggests imports s source hint)
    (hbutton : button ∈ hint.buttons) : ∃ after, Remedies r s source imports after button := by
  cases h with
  | onboarding hnone =>
    subst hnone
    obtain ⟨c, hc⟩ := remedies_onboarding hr hresolve hbutton
    exact ⟨[c], hc⟩
  | check w advice hw hactive hcheck =>
    have hchecks := Registry.mem_checks hresolve hw
    rcases List.mem_append.1 hbutton with haction | hignore
    · have hsettles := hr.settles w hchecks _ hfinite advice hcheck button haction
      refine ⟨imports, remedies_of_values hresolve hsettles.writable hsettles.libraries
        hsettles.hints fun hint h => ?_⟩
      cases h with
      | check _ _ _ _ hagain =>
        rw [show w.check (s.apply button).values = none from hsettles.quiet] at hagain
        cases hagain
    · rw [List.mem_singleton.1 hignore]
      obtain ⟨c, hc, hwc⟩ := List.mem_flatMap.1 hw
      refine ⟨imports, remedies_activating hresolve (hr.bypasses w hchecks)
        (fun hmeaningless => hmeaningless.2 c hc w hwc rfl) fun t hsilenced hint h => ?_⟩
      cases h with
      | check _ _ _ hactive => exact hactive hsilenced
  | default name value hi hassuming hunbound =>
    obtain ⟨hname, hvalue⟩ := hr.defaults _ (Registry.mem_defaults hresolve hi)
    rcases List.mem_cons.1 hbutton with rfl | hdisable
    · refine ⟨imports, remedies_of_values hresolve
        (Button.writable_setting _ hname hvalue).recommended rfl rfl fun hint h => ?_⟩
      cases h with
      | default _ _ _ _ hagain =>
        have hbound : (s.values.insert name value).get? name = none := hagain
        rw [Bindings.get?_insert, if_pos rfl] at hbound
        cases hbound
    · rw [List.mem_singleton.1 hdisable]
      refine ⟨imports, remedies_activating hresolve (by decide) (fun hmeaningless => ?_)
        fun t hoff hint h => ?_⟩
      · exact hmeaningless.1 rfl
      · cases h with
        | default _ _ _ hassuming => exact hassuming hoff

end Buttons

/-! ## Edited lines -/

namespace Registry

variable {r : Registry} {line : String} {steps : List Step} {button : Button}

/-- The trace of a line without a fault is that of its session. -/
theorem solveSession_of_read {s : Session} (hread : Session.read line = ⟨s, []⟩)
    (h : r.solve line = .ok steps) : r.solveSession s = .ok steps := by
  obtain ⟨rest, hsession, rfl⟩ := map_eq_ok.1 h
  rw [hread] at hsession ⊢
  exact hsession

/-- **Every button does its job**: pressed on a line of finite values, it leaves a line
that reads without a fault and has a solution, in which no hint says what the hint of the
button said. What errors there are were errors before, on hints without a meaning. -/
theorem solve_remedied {hint : Hint}
    (hfinite : ∀ entry ∈ (Session.read line).session.values.entries, Number.isFinite entry.2 = true)
    (h : builtin.solve line = .ok steps) (hhint : .hint hint ∈ steps)
    (hbutton : button ∈ hint.buttons) :
    (Session.read (Session.editLine line button)).faults = [] ∧
    ∃ again, builtin.solve (Session.editLine line button) = .ok again ∧
      (∀ other, .hint other ∈ again → other.message ≠ hint.message) ∧
      ∀ message, .error message ∈ again →
        ∃ token ∈ (Session.read line).session.hints,
          Meaningless (builtin.importsOf (Session.read line).session) token ∧
          message = "Unknown hint \"" ++ token ++ "\"" ∧ .error message ∈ steps := by
  obtain ⟨rest, hsession, rfl⟩ := map_eq_ok.1 h
  have hrest : .hint hint ∈ rest := by
    rcases List.mem_append.1 hhint with hmem | hmem
    · obtain ⟨_, -, heq⟩ := List.mem_map.1 hmem
      cases heq
    · exact hmem
  obtain ⟨before, source, hbefore, hsource⟩ := suggests_of_mem hsession hrest
  obtain ⟨after, hremedies⟩ := hsource.exists_remedies helpful_builtin hfinite hbefore hbutton
  have hread := Session.read_editLine hremedies.writable hfinite
  obtain ⟨again, hagain⟩ : ∃ again, builtin.solve (Session.editLine line button) = .ok again :=
    exists_solve fun _ _ _ hget => asksReference_builtin (mem_of_get? hget)
  have hedited := solveSession_of_read hread hagain
  refine ⟨by rw [hread], again, hagain, fun other hother hmessage => ?_, fun message hmem => ?_⟩
  · -- A hint that says the same has the same source, and the source is quiet.
    obtain ⟨imports, source', himports, hsource'⟩ := suggests_of_mem hedited hother
    have heq := hsource'.source_eq helpful_builtin himports hbefore hsource hmessage
    rw [hremedies.resolve] at himports
    cases himports
    exact hremedies.quiet other (heq ▸ hsource')
  · obtain ⟨token, htoken, hmeaningless, hmessage⟩ :=
      (error_mem_iff hedited hremedies.resolve).1 hmem
    obtain ⟨htoken, hmeaningless⟩ := hremedies.hints token htoken hmeaningless
    rw [importsOf_eq hbefore]
    refine ⟨token, htoken, hmeaningless, hmessage, List.mem_append_right _ ?_⟩
    exact (error_mem_iff hsession hbefore).2 ⟨token, htoken, hmeaningless, hmessage⟩

/-- A line with a fault and a hint without a meaning: flipping the displacement leaves the
latter as the only error. -/
theorem solve_remedied_displacement : ∃ steps hint button again,
    builtin.solve "!kinematics x= @odd dy=5" = .ok steps ∧ .hint hint ∈ steps ∧
      button ∈ hint.buttons ∧ button.text = "Flip the direction" ∧
      builtin.solve (Session.editLine "!kinematics x= @odd dy=5" button) = .ok again ∧
      (∀ other, .hint other ∈ again → other.message ≠ "The displacement is positive") ∧
      ∀ message, .error message ∈ again → message = "Unknown hint \"odd\"" := by
  have hfinite : ∀ entry ∈ (Session.read "!kinematics x= @odd dy=5").session.values.entries,
      Number.isFinite entry.2 = true := by decide +kernel
  have hhints : (Session.read "!kinematics x= @odd dy=5").session.hints = ["odd"] := by
    decide +kernel
  have hshows : builtin.shows "!kinematics x= @odd dy=5" 2 (fun step => step.hint?.any fun hint =>
      hint.message == "The displacement is positive" &&
        hint.buttons.any (·.text == "Flip the direction")) = true := by
    decide +kernel
  obtain ⟨steps, before, step, after, hsolve, hsplit, -, hstep⟩ := exists_split_of_shows hshows
  cases step with
  | hint hint =>
    have htexts := Bool.and_eq_true_iff.1 hstep
    obtain ⟨button, hbutton, htext⟩ := List.any_eq_true.1 htexts.2
    have hhint : .hint hint ∈ steps := by
      rw [hsplit]
      exact List.mem_append_right _ List.mem_cons_self
    obtain ⟨-, again, hagain, hquiet, herrors⟩ := solve_remedied hfinite hsolve hhint hbutton
    rw [beq_iff_eq.1 htexts.1] at hquiet
    refine ⟨steps, hint, button, again, hsolve, hhint, hbutton, beq_iff_eq.1 htext, hagain, hquiet,
      fun message hmem => ?_⟩
    obtain ⟨token, htoken, -, rfl, -⟩ := herrors message hmem
    rw [hhints, List.mem_singleton] at htoken
    rw [htoken]
    rfl
  | error message => cases hstep
  | solved solved => cases hstep
  | summary values => cases hstep

end Registry

end Stepwise
