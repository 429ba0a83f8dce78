import Mathlib.Data.List.Nodup
import Stepwise.Proofs.Solution.Grammar

/-!
# Warnings and the checks behind them

The warnings of a trace come check by check, in the order of import and then of
declaration. A check is known by its place, the name of its catalog and its position
there, and its catalog is looked up anew each time that a line lists it:

> `count_raised`: a check that warns at all warns as often as its catalog is listed.

So no check warns twice exactly if every catalog with a check that warns is listed once
(`solve_warnings`), and a catalog that is listed twice repeats its warnings
(`warnings_repeated`).
-/

namespace Stepwise

/-- The place of a check: the name of its catalog and its position among the checks there. -/
structure CheckPlace where
  catalog : String
  position : Nat
deriving DecidableEq

/-- The hint of a check that is not silenced and that fires. -/
def Warning.raise? (w : Warning) (hints : List String) (b : Bindings) : Option Hint :=
  if w.bypass ∈ hints then none else (w.check b).map w.hint

/-- The hints that the checks of a catalog raise, each with the place of its check. -/
def Catalog.raised (c : Catalog) (hints : List String) (b : Bindings) : List (CheckPlace × Hint) :=
  c.warnings.zipIdx.filterMap fun (w, position) =>
    (w.raise? hints b).map (⟨c.name, position⟩, ·)

/-- The hints that the checks of some catalogs raise, in the order of the catalogs. -/
def raisedBy (imports : List Catalog) (hints : List String) (b : Bindings) :
    List (CheckPlace × Hint) :=
  imports.flatMap (·.raised hints b)

/-- The warning that a step is: a hint that assumes nothing. -/
def Step.warning? : Step → Option Hint
  | .hint h => if h.assumed? = none then some h else none
  | _ => none

variable {imports : List Catalog} {hints : List String} {b : Bindings}

/-! ## One check -/

/-- A hint is raised with the advice of its check, and ends with an edit that does nothing
but silence the check. -/
theorem Warning.raise?_eq_some_iff {w : Warning} {hint : Hint} : w.raise? hints b = some hint ↔
    "ignore-" ++ w.id ∉ hints ∧ ∃ advice, w.check b = some advice ∧
      hint = ⟨advice.text, advice.actions ++
        [{ text := "Ignore this warning", hints := ["ignore-" ++ w.id] }]⟩ := by
  unfold raise?
  split
  · next hsilenced =>
    refine iff_of_false (fun h => ?_) fun h => h.1 hsilenced
    cases h
  · next hactive =>
    have hactive : "ignore-" ++ w.id ∉ hints := hactive
    rw [Option.map_eq_some_iff, and_iff_right hactive]
    exact exists_congr fun advice => and_congr_right fun _ => eq_comm

/-- A hint with its place is raised by the check of that place. -/
theorem Catalog.mem_raised_iff {c : Catalog} {place : CheckPlace} {hint : Hint} :
    (place, hint) ∈ c.raised hints b ↔ c.name = place.catalog ∧
      ∃ w, c.warnings[place.position]? = some w ∧ w.raise? hints b = some hint := by
  unfold raised
  rw [List.mem_filterMap]
  constructor
  · rintro ⟨⟨w, position⟩, hmem, hraise⟩
    obtain ⟨h, hh, heq⟩ := Option.map_eq_some_iff.1 hraise
    cases heq
    exact ⟨rfl, w, List.mem_zipIdx_iff_getElem?.1 hmem, hh⟩
  · obtain ⟨catalog, position⟩ := place
    rintro ⟨rfl, w, hget, hraise⟩
    refine ⟨(w, position), List.mem_zipIdx_iff_getElem?.2 hget, ?_⟩
    exact Option.map_eq_some_iff.2 ⟨hint, hraise, rfl⟩

/-- A catalog that is looked up once asks each of its checks once. -/
theorem Catalog.nodup_raised (c : Catalog) : ((c.raised hints b).map (·.1)).Nodup := by
  have hpositions : c.warnings.zipIdx.Pairwise fun d e => d.2 ≠ e.2 := by
    have hnodup : (c.warnings.zipIdx.map (·.2)).Nodup := by
      rw [List.zipIdx_map_snd]
      exact List.nodup_range'
    exact List.pairwise_map.1 hnodup
  unfold raised
  rw [List.Nodup, List.pairwise_map, List.pairwise_filterMap]
  refine hpositions.imp ?_
  rintro ⟨w, i⟩ ⟨w', i'⟩ hne first hfirst second hsecond heq
  obtain ⟨_, -, rfl⟩ := Option.map_eq_some_iff.1 hfirst
  obtain ⟨_, -, rfl⟩ := Option.map_eq_some_iff.1 hsecond
  exact hne (CheckPlace.mk.inj heq).2

/-! ## All checks -/

theorem Catalog.map_raised (c : Catalog) : (c.raised hints b).map (fun e => Step.hint e.2) =
    c.warnings.filterMap fun w => if hints.contains w.bypass then none
      else (w.check b).map fun advice => .hint (w.hint advice) := by
  have hstep : ∀ w : Warning, (w.raise? hints b).map Step.hint =
      if hints.contains w.bypass then none
      else (w.check b).map fun advice => .hint (w.hint advice) := by
    intro w
    unfold Warning.raise?
    simp only [List.contains_iff_mem]
    split
    · rfl
    · rw [Option.map_map]
      rfl
  unfold raised
  rw [List.map_filterMap]
  simp only [Option.map_map, Function.comp_def, ← hstep]
  conv_rhs => rw [← List.zipIdx_map_fst 0 c.warnings, List.filterMap_map]
  rfl

/-- The warnings of a solution are the hints that the checks raise. -/
theorem warningSteps_eq :
    warningSteps imports hints b = (raisedBy imports hints b).map fun e => .hint e.2 := by
  unfold warningSteps raisedBy
  rw [List.filterMap_flatMap, List.map_flatMap]
  simp only [Catalog.map_raised]

theorem mem_raisedBy_iff {place : CheckPlace} {hint : Hint} :
    (place, hint) ∈ raisedBy imports hints b ↔ ∃ c ∈ imports, c.name = place.catalog ∧
      ∃ w, c.warnings[place.position]? = some w ∧ w.raise? hints b = some hint := by
  unfold raisedBy
  rw [List.mem_flatMap]
  simp only [Catalog.mem_raised_iff]

/-- In a list of lists that hold an item once or not at all it occurs as often as there
are lists that hold it. -/
theorem count_flatMap_eq_countP {α β : Type} [DecidableEq β] {f : α → List β} {p : α → Bool}
    {x : β} {l : List α} (h : ∀ a ∈ l, (f a).count x = if p a then 1 else 0) :
    (l.flatMap f).count x = l.countP p := by
  induction l with
  | nil => rfl
  | cons a l ih =>
    obtain ⟨hhead, htail⟩ := List.forall_mem_cons.1 h
    rw [List.flatMap_cons, List.count_append, hhead, ih htail, List.countP_cons, Nat.add_comm]

/-- **A check that warns at all warns as often as its catalog is listed**, where a name
stands for one catalog. -/
theorem count_raisedBy (himports : ∀ c ∈ imports, ∀ d ∈ imports, c.name = d.name → c = d)
    {place : CheckPlace} (hplace : place ∈ (raisedBy imports hints b).map (·.1)) :
    ((raisedBy imports hints b).map (·.1)).count place =
      (imports.map (·.name)).count place.catalog := by
  obtain ⟨⟨place, hint⟩, hmem, rfl⟩ := List.mem_map.1 hplace
  obtain ⟨d, hd, hname, w, hget, hraise⟩ := mem_raisedBy_iff.1 hmem
  have hcount : ∀ c ∈ imports, ((c.raised hints b).map (·.1)).count place =
      if c.name == place.catalog then 1 else 0 := by
    intro c hc
    by_cases hsame : c.name = place.catalog
    · -- It is the catalog of the check, whose checks are asked once.
      have heq : c = d := himports c hc d hd (hsame.trans hname.symm)
      rw [if_pos (beq_iff_eq.2 hsame)]
      refine List.count_eq_one_of_mem c.nodup_raised (List.mem_map.2 ⟨(place, hint), ?_, rfl⟩)
      exact Catalog.mem_raised_iff.2 ⟨hsame, w, heq ▸ hget, hraise⟩
    · rw [if_neg fun h => hsame (beq_iff_eq.1 h)]
      refine List.count_eq_zero_of_not_mem fun h => ?_
      obtain ⟨e, he, heq⟩ := List.mem_map.1 h
      exact hsame (heq ▸ (Catalog.mem_raised_iff.1 he).1)
  unfold raisedBy
  rw [List.map_flatMap, count_flatMap_eq_countP hcount, List.count, List.countP_map]
  rfl

/-! ## Session lines -/

theorem Step.warning?_of_isError {step : Step} (h : step.isError = true) :
    step.warning? = none := by
  cases step with
  | error message => rfl
  | hint hint => cases h
  | solved s => rfl
  | summary values => rfl

/-- A hint that a check raises is a warning. -/
theorem filterMap_warning?_warningSteps :
    (warningSteps imports hints b).filterMap Step.warning? =
      (raisedBy imports hints b).map (·.2) := by
  rw [warningSteps_eq, List.filterMap_map, List.filterMap_eq_map_iff_forall_eq_some]
  rintro ⟨place, hint⟩ hmem
  obtain ⟨c, -, -, w, -, hraise⟩ := mem_raisedBy_iff.1 hmem
  obtain ⟨-, advice, -, rfl⟩ := Warning.raise?_eq_some_iff.1 hraise
  exact if_pos (assumed?_warning w advice)

theorem Run.warning?_of_mem {assuming : Bool} {final : Bindings} {steps : List Step}
    (h : Run imports assuming b steps final) {step : Step} (hstep : step ∈ steps) :
    step.warning? = none := by
  rcases h.step_cases hstep with ⟨s, rfl⟩ | ⟨name, value, rfl, -⟩
  · rfl
  · rfl

namespace Registry

variable {r : Registry} {line : String} {steps : List Step}

theorem name_of_get? {c : Catalog} {name : String} (h : r.get? name = some c) : c.name = name := by
  have hfind : r.catalogs.find? (·.name == name) = some c := h
  have hname := List.find?_some hfind
  exact beq_iff_eq.1 hname

/-- Names that are all known can be resolved. -/
theorem resolve_of_known {s : Session} (h : ∀ name ∈ s.libraries, ∃ c, r.get? name = some c) :
    r.resolve s.libraries = .ok (r.importsOf s) := by
  cases hresolve : r.resolve s.libraries with
  | ok imports => rw [importsOf_eq hresolve]
  | error name =>
    obtain ⟨hnone, front, back, hlibraries, -⟩ := isFirst_of_resolve hresolve
    obtain ⟨c, hc⟩ := h name (hlibraries ▸ List.mem_append_right _ List.mem_cons_self)
    rw [hnone] at hc
    cases hc

/-- Imports are named as the session lists them. -/
theorem map_name_of_resolve {names : List String} (h : r.resolve names = .ok imports) :
    imports.map (·.name) = names := by
  have hknown := resolve_eq_ok_iff.1 h
  induction names generalizing imports with
  | nil =>
    rw [List.map_nil] at hknown
    rw [List.map_eq_nil_iff.1 hknown.symm, List.map_nil]
  | cons name names ih =>
    cases imports with
    | nil => cases hknown
    | cons c imports =>
      obtain ⟨hhead, htail⟩ := List.cons.inj hknown
      rw [List.map_cons, name_of_get? hhead, ih (resolve_eq_ok_iff.2 htail) htail]

/-- Imports of the same name are the same. -/
theorem eq_of_mem_of_name_eq {names : List String} (h : r.resolve names = .ok imports)
    {c d : Catalog} (hc : c ∈ imports) (hd : d ∈ imports) (hname : c.name = d.name) : c = d := by
  obtain ⟨n, -, hn⟩ := mem_of_resolve h hc
  obtain ⟨m, -, hm⟩ := mem_of_resolve h hd
  have heq : n = m := by rw [← name_of_get? hn, ← name_of_get? hm, hname]
  rw [heq, hm] at hn
  exact (Option.some.inj hn).symm

/-- The hints that the checks of a session's imports raise. -/
def raised (r : Registry) (s : Session) : List (CheckPlace × Hint) :=
  raisedBy (r.importsOf s) s.hints s.values

/-- The warnings of a trace are the hints that the checks raise. -/
theorem filterMap_warning?_solve (h : r.solve line = .ok steps)
    (hne : (Session.read line).session.libraries ≠ [])
    (hknown : ∀ name ∈ (Session.read line).session.libraries, ∃ c, r.get? name = some c) :
    steps.filterMap Step.warning? = (r.raised (Session.read line).session).map (·.2) := by
  have hresolved := resolve_of_known hknown
  obtain ⟨rest, hsession, rfl⟩ := map_eq_ok.1 h
  rcases solveSession_cases hsession with ⟨name, hresolve, -⟩ | ⟨hresolve, -⟩ |
    ⟨imports, moves, final, hresolve, -, hrun, rfl⟩
  · rw [hresolved] at hresolve
    cases hresolve
  · exact absurd (List.map_eq_nil_iff.1 (resolve_eq_ok_iff.1 hresolve)) hne
  · rw [hresolved] at hresolve
    cases hresolve
    have hremarks : ∀ step ∈ faultErrors (Session.read line) ++
        hintErrors (r.importsOf (Session.read line).session) (Session.read line),
        step.warning? = none := by
      rw [List.forall_mem_append]
      exact ⟨fun _ h => Step.warning?_of_isError (isError_of_mem_faultErrors h),
        fun _ h => Step.warning?_of_isError (isError_of_mem_hintErrors h)⟩
    show (faultErrors _ ++ _).filterMap _ = _
    rw [unknownHintSteps_eq]
    simp only [← List.append_assoc]
    rw [List.filterMap_append, List.filterMap_append, List.filterMap_append,
      List.filterMap_eq_nil_iff.2 hremarks,
      List.filterMap_eq_nil_iff.2 fun _ => hrun.warning?_of_mem, filterMap_warning?_warningSteps,
      List.nil_append, List.append_nil]
    exact List.append_nil _

/-- A check that raises a hint raises one for each time that the line lists its catalog. -/
theorem count_raised {s : Session} (hknown : ∀ name ∈ s.libraries, ∃ c, r.get? name = some c)
    {place : CheckPlace} (hplace : place ∈ (r.raised s).map (·.1)) :
    ((r.raised s).map (·.1)).count place = s.libraries.count place.catalog := by
  have hresolve := resolve_of_known hknown
  unfold raised at hplace ⊢
  rw [count_raisedBy (fun c hc d hd => eq_of_mem_of_name_eq hresolve hc hd) hplace,
    map_name_of_resolve hresolve]

/-- **The warnings of a trace come from the checks of the imports**: those that are not
silenced and that fire on the values of the line, in the order of import and then of
declaration, each ending with the edit that silences its own check alone. A check that
warns does so as often as its catalog is listed, hence once for every check exactly if
the catalogs whose checks warn are listed once. -/
theorem solve_warnings (h : r.solve line = .ok steps)
    (hne : (Session.read line).session.libraries ≠ [])
    (hknown : ∀ name ∈ (Session.read line).session.libraries, ∃ c, r.get? name = some c) :
    steps.filterMap Step.warning? = (r.raised (Session.read line).session).map (·.2) ∧
    (∀ place hint, (place, hint) ∈ r.raised (Session.read line).session ↔
      ∃ c ∈ r.importsOf (Session.read line).session, c.name = place.catalog ∧
        ∃ w, c.warnings[place.position]? = some w ∧
          "ignore-" ++ w.id ∉ (Session.read line).session.hints ∧
          ∃ advice, w.check (Session.read line).session.values = some advice ∧
            hint = ⟨advice.text, advice.actions ++
              [{ text := "Ignore this warning", hints := ["ignore-" ++ w.id] }]⟩) ∧
    (∀ place ∈ (r.raised (Session.read line).session).map (·.1),
      ((r.raised (Session.read line).session).map (·.1)).count place =
        (Session.read line).session.libraries.count place.catalog) ∧
    (((r.raised (Session.read line).session).map (·.1)).Nodup ↔
      ∀ place ∈ (r.raised (Session.read line).session).map (·.1),
        (Session.read line).session.libraries.count place.catalog = 1) := by
  have hcount : ∀ place ∈ (r.raised (Session.read line).session).map (·.1),
      ((r.raised (Session.read line).session).map (·.1)).count place =
        (Session.read line).session.libraries.count place.catalog :=
    fun _ => count_raised hknown
  refine ⟨filterMap_warning?_solve h hne hknown, fun place hint => ?_, hcount, ?_⟩
  · refine mem_raisedBy_iff.trans ?_
    simp only [Warning.raise?_eq_some_iff]
  · rw [List.nodup_iff_count_le_one]
    constructor
    · intro honce place hplace
      have hpos := List.count_pos_iff.2 hplace
      have hle := honce place
      rw [← hcount place hplace]
      omega
    · intro hlisted place
      by_cases hplace : place ∈ (r.raised (Session.read line).session).map (·.1)
      · exact Nat.le_of_eq ((hcount place hplace).trans (hlisted place hplace))
      · rw [List.count_eq_zero_of_not_mem hplace]
        exact Nat.zero_le 1

/-- A line with two catalogs and two checks, one of which is silenced. -/
theorem solve_warnings_kinematics : ∃ steps,
    builtin.solve "!slopes !kinematics @ignore-negative-displacement dy=5 ay=3" = .ok steps ∧
      (steps.filterMap Step.warning?).map (·.message) = [
        "The acceleration is positive",
        "The acceleration is not -10 m/s², which is the acceleration used in physics problems"] := by
  have hlibraries : (Session.read
      "!slopes !kinematics @ignore-negative-displacement dy=5 ay=3").session.libraries =
        ["slopes", "kinematics"] := by decide +kernel
  have hraised : ((builtin.raised (Session.read
      "!slopes !kinematics @ignore-negative-displacement dy=5 ay=3").session).map (·.2)).map
        (·.message) = [
      "The acceleration is positive",
      "The acceleration is not -10 m/s², which is the acceleration used in physics problems"] := by
    decide +kernel
  obtain ⟨steps, _, hsolve, -⟩ := exists_steps_of_ends (show builtin.ends
    "!slopes !kinematics @ignore-negative-displacement dy=5 ay=3" = true by decide +kernel)
  obtain ⟨hwarnings, -⟩ := solve_warnings hsolve
    (by rw [hlibraries]; exact List.cons_ne_nil _ _)
    (by
      rw [hlibraries]
      exact List.forall_mem_cons.2 ⟨⟨_, rfl⟩, List.forall_mem_singleton.2 ⟨_, rfl⟩⟩)
  exact ⟨steps, hsolve, hwarnings ▸ hraised⟩

/-- **A catalog that is listed twice repeats its warnings**: one check warns twice. -/
theorem warnings_repeated : ∃ steps,
    builtin.solve "!kinematics !kinematics @no-implicit dy=5" = .ok steps ∧
      (steps.filterMap Step.warning?).map (·.message) =
        ["The displacement is positive", "The displacement is positive"] ∧
      ((builtin.raised (Session.read
        "!kinematics !kinematics @no-implicit dy=5").session).map (·.1)).count
          ⟨"kinematics", 0⟩ = 2 := by
  have hlibraries : (Session.read
      "!kinematics !kinematics @no-implicit dy=5").session.libraries =
        ["kinematics", "kinematics"] := by decide +kernel
  have hraised : ((builtin.raised (Session.read
      "!kinematics !kinematics @no-implicit dy=5").session).map (·.2)).map (·.message) =
        ["The displacement is positive", "The displacement is positive"] := by decide +kernel
  obtain ⟨steps, _, hsolve, -⟩ := exists_steps_of_ends (show builtin.ends
    "!kinematics !kinematics @no-implicit dy=5" = true by decide +kernel)
  have hwarnings := filterMap_warning?_solve hsolve
    (by rw [hlibraries]; exact List.cons_ne_nil _ _)
    (by
      rw [hlibraries]
      exact List.forall_mem_cons.2 ⟨⟨_, rfl⟩, List.forall_mem_singleton.2 ⟨_, rfl⟩⟩)
  exact ⟨steps, hsolve, hwarnings ▸ hraised, by decide +kernel⟩

end Registry

end Stepwise
