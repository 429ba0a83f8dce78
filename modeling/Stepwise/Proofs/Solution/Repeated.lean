import Stepwise.Proofs.Solution.Course
import Stepwise.Proofs.Solution.Warnings

/-!
# Repeated imports

A derivation searches its imports for the first relation that can be used, then for the
first default of an unbound name, and a search ends at its first hit. A catalog that is
imported again stands behind itself, where nothing of it comes first:

> `sameHits_of_eraseDups`: imports that differ in repetitions alone answer every search
> alike.

So the next move is the same at all values, and two derivations that begin at the same
values make the same moves (`course_congr`). What a repeated import does repeat is its
warnings.
-/

namespace Stepwise

variable {imports imports' : List Catalog} {assuming : Bool} {b : Bindings}

/-! ## Searches through imports -/

/-- Every search through some catalogs ends as it does in others. -/
structure SameHits (imports imports' : List Catalog) : Prop where
  findSome?_eq {β : Type} (search : Catalog → Option β) :
    imports'.findSome? search = imports.findSome? search

/-- **Imports that differ in repetitions alone answer every search alike.** -/
theorem sameHits_of_eraseDups (r : Registry) {names names' : List String}
    (h : names'.eraseDups = names.eraseDups) :
    SameHits (names.filterMap r.get?) (names'.filterMap r.get?) := by
  refine ⟨fun search => ?_⟩
  rw [findSome?_filterMap, findSome?_filterMap, ← findSome?_eraseDups, h, findSome?_eraseDups]

namespace SameHits

theorem nextRelation? (h : SameHits imports imports') (b : Bindings) :
    nextRelation? imports' b = nextRelation? imports b := by
  unfold Stepwise.nextRelation? relationsOf
  rw [List.find?_flatMap, List.find?_flatMap, h.findSome?_eq]

theorem nextImplicit? (h : SameHits imports imports') (b : Bindings) :
    nextImplicit? imports' b = nextImplicit? imports b := by
  unfold Stepwise.nextImplicit? implicitsOf
  rw [List.find?_flatMap, List.find?_flatMap, h.findSome?_eq]

theorem nextMove? (h : SameHits imports imports') (assuming : Bool) (b : Bindings) :
    nextMove? imports' assuming b = nextMove? imports assuming b := by
  unfold Stepwise.nextMove?
  rw [h.nextRelation?, h.nextImplicit?]

/-- Some catalogs are none at all exactly if the others are. -/
theorem eq_nil_iff (h : SameHits imports imports') : imports' = [] ↔ imports = [] := by
  have hhead : ∀ l : List Catalog, l.findSome? some = l.head? := by
    intro l
    cases l with
    | nil => rfl
    | cons c l => rfl
  rw [← List.head?_eq_none_iff, ← hhead, h.findSome?_eq, hhead, List.head?_eq_none_iff]

/-- A hint has a meaning if the search for a check that it silences has a hit. -/
theorem contains_knownHints (h : SameHits imports imports') (hint : String) :
    (knownHints imports').contains hint = (knownHints imports).contains hint := by
  have hsearch : ∀ l : List Catalog, (l.flatMap (·.bypasses)).contains hint =
      (l.findSome? fun c => c.bypasses.find? (· == hint)).isSome := by
    intro l
    rw [← List.find?_flatMap, Bool.eq_iff_iff, List.contains_iff_mem, List.find?_isSome]
    simp
  unfold knownHints
  rw [List.contains_cons, List.contains_cons, hsearch, hsearch, h.findSome?_eq]

theorem unknownHintSteps (h : SameHits imports imports') (hints : List String) :
    unknownHintSteps imports' hints = unknownHintSteps imports hints := by
  unfold Stepwise.unknownHintSteps
  simp only [h.contains_knownHints]

end SameHits

/-! ## Two derivations -/

/-- **Derivations that agree on every next move make the same moves.** -/
theorem course_congr
    (h : ∀ b, nextMove? imports' assuming b = nextMove? imports assuming b) (b : Bindings) :
    course imports' assuming b = course imports assuming b := by
  fun_induction course imports assuming b with
  | case1 b hnone => exact course_of_none ((h b).trans hnone)
  | case2 b m hnext fault hperform => exact course_of_error ((h b).trans hnext) hperform
  | case3 b m hnext step value hperform rest ih =>
    rw [course_of_ok ((h b).trans hnext) hperform, ih]

theorem SameHits.derive (h : SameHits imports imports') (assuming : Bool) (b : Bindings) :
    derive imports' assuming b = derive imports assuming b := by
  rw [derive_eq_course, derive_eq_course, course_congr (h.nextMove? assuming)]

/-! ## Steps that are no warnings -/

theorem filter_warning?_warningSteps (imports : List Catalog) (hints : List String) (b : Bindings) :
    (warningSteps imports hints b).filter (·.warning?.isNone) = [] := by
  rw [List.filter_eq_nil_iff]
  intro step hstep
  obtain ⟨_, _, w, _, _, advice, _, rfl⟩ := (mem_warningSteps_iff (s := ⟨[], hints, b⟩)).1 hstep
  have hwarning : (Step.hint (w.hint advice)).warning? = some (w.hint advice) :=
    if_pos (assumed?_warning w advice)
  rw [hwarning]
  exact Bool.false_ne_true

theorem Step.warning?_of_isProgress {step : Step} (h : step.isProgress = true) :
    step.warning? = none := by
  cases step with
  | hint hint =>
    refine if_neg fun hnone => ?_
    have hbound : (Step.hint hint).bound? = none := hnone
    unfold isProgress at h
    rw [hbound] at h
    cases h
  | error message => rfl
  | solved s => rfl
  | summary values => rfl

/-- No solved step, assumption or summary is a warning. -/
theorem filter_isProgress_filter_warning? (steps : List Step) :
    (steps.filter (·.warning?.isNone)).filter Step.isProgress = steps.filter Step.isProgress := by
  rw [List.filter_filter]
  refine List.filter_congr fun step _ => ?_
  cases hprogress : step.isProgress with
  | false => rfl
  | true =>
    rw [Step.warning?_of_isProgress hprogress]
    rfl

/-! ## Sessions -/

namespace Registry

variable {r : Registry} {s s' : Session}

/-- Names are resolved unless a search for an unknown one has a hit. -/
theorem resolve_eq (r : Registry) (names : List String) : r.resolve names =
    match names.find? fun name => (r.get? name).isNone with
    | some name => .error name
    | none => .ok (names.filterMap r.get?) := by
  induction names with
  | nil => rfl
  | cons name names ih =>
    rw [resolve, List.find?_cons, List.filterMap_cons, ih]
    cases r.get? name with
    | none => rfl
    | some c => cases names.find? fun name => (r.get? name).isNone <;> rfl

/-- Sessions that differ in repetitions of imports alone say the same, warnings apart. -/
theorem filter_warning?_congr (hlibraries : s'.libraries.eraseDups = s.libraries.eraseDups)
    (hhints : s'.hints = s.hints) (hvalues : s'.values = s.values) :
    (r.solveSession s').map (·.filter (·.warning?.isNone)) =
      (r.solveSession s).map (·.filter (·.warning?.isNone)) := by
  have hunknown : (s'.libraries.find? fun name => (r.get? name).isNone) =
      s.libraries.find? fun name => (r.get? name).isNone := by
    rw [← find?_eraseDups, hlibraries, find?_eraseDups]
  have hsame := sameHits_of_eraseDups r hlibraries
  unfold solveSession Session.hasHint
  rw [resolve_eq, resolve_eq, hunknown, hhints, hvalues]
  cases s.libraries.find? fun name => (r.get? name).isNone with
  | some name => rfl
  | none =>
    generalize s.libraries.filterMap r.get? = imports at hsame ⊢
    generalize s'.libraries.filterMap r.get? = imports' at hsame ⊢
    cases imports with
    | nil => rw [hsame.eq_nil_iff.2 rfl]
    | cons c imports =>
      cases imports' with
      | nil => cases hsame.eq_nil_iff.1 rfl
      | cons c' imports' =>
        dsimp only
        rw [hsame.derive, hsame.unknownHintSteps]
        cases Stepwise.derive (c :: imports) (!s.hints.contains noImplicit) s.values with
        | error fault => rfl
        | ok result =>
          refine congrArg Except.ok ?_
          simp only [List.filter_append, filter_warning?_warningSteps]

/-- **A repeated import repeats its warnings and changes nothing else.** Sessions with the
same hints and values whose imports are equal once each is kept at its first occurrence
alone fail with the same fault, or have the same solved steps, assumptions and summary, and
so have the lines that say them. The errors are the same as well, so if the lines have the
same faults, they differ in their warnings alone. -/
theorem solveSession_repeated (hlibraries : s'.libraries.eraseDups = s.libraries.eraseDups)
    (hhints : s'.hints = s.hints) (hvalues : s'.values = s.values) :
    (r.solveSession s').map (·.filter Step.isProgress) =
        (r.solveSession s).map (·.filter Step.isProgress) ∧
      (r.solveSession s').map (·.filter (·.warning?.isNone)) =
        (r.solveSession s).map (·.filter (·.warning?.isNone)) ∧
      ∀ line line', (Session.read line).session = s → (Session.read line').session = s' →
        (r.solve line').map (·.filter Step.isProgress) =
            (r.solve line).map (·.filter Step.isProgress) ∧
          ((Session.read line').faults = (Session.read line).faults →
            (r.solve line').map (·.filter (·.warning?.isNone)) =
              (r.solve line).map (·.filter (·.warning?.isNone))) := by
  have hsaid := filter_warning?_congr (r := r) hlibraries hhints hvalues
  have hprogress : (r.solveSession s').map (·.filter Step.isProgress) =
      (r.solveSession s).map (·.filter Step.isProgress) := by
    have hfilter := congrArg (Except.map (·.filter Step.isProgress)) hsaid
    simpa only [map_map, Function.comp_def, filter_isProgress_filter_warning?] using hfilter
  refine ⟨hprogress, hsaid, ?_⟩
  rintro line line' rfl rfl
  constructor
  · rw [map_filter_solve, map_filter_solve, hprogress, filter_isProgress_faultErrors,
      filter_isProgress_faultErrors]
  · intro hfaults
    have herrors : faultErrors (Session.read line') = faultErrors (Session.read line) :=
      congrArg (List.map _) hfaults
    rw [map_filter_solve, map_filter_solve, hsaid, herrors]

/-- A catalog with a warning that is imported again behind another. -/
theorem solveSession_repeated_kinematics :
    (builtin.solveSession ⟨["kinematics", "slopes", "kinematics"], [],
        .ofList [("dy", 5.0), ("m", 2.0)]⟩).map (·.filter Step.isProgress) =
      (builtin.solveSession ⟨["kinematics", "slopes"], [],
        .ofList [("dy", 5.0), ("m", 2.0)]⟩).map (·.filter Step.isProgress) ∧
    (builtin.solveSession ⟨["kinematics", "slopes"], [],
        .ofList [("dy", 5.0), ("m", 2.0)]⟩).toOption.map
      (fun steps => ((steps.filter Step.isProgress).length, (steps.filterMap Step.warning?).length)) =
        some (13, 1) ∧
    (builtin.solveSession ⟨["kinematics", "slopes", "kinematics"], [],
        .ofList [("dy", 5.0), ("m", 2.0)]⟩).toOption.map (fun steps =>
          (steps.filterMap Step.warning?).length) = some 2 := by
  have hlibraries : ["kinematics", "slopes", "kinematics"].eraseDups =
      ["kinematics", "slopes"].eraseDups := by decide
  have hrepeated := @solveSession_repeated builtin
    ⟨["kinematics", "slopes"], [], .ofList [("dy", 5.0), ("m", 2.0)]⟩
    ⟨["kinematics", "slopes", "kinematics"], [], .ofList [("dy", 5.0), ("m", 2.0)]⟩
    hlibraries rfl rfl
  exact ⟨hrepeated.1, by decide +kernel, by decide +kernel⟩

end Registry

end Stepwise
