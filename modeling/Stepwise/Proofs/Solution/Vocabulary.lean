import Mathlib.Data.List.Find
import Stepwise.Proofs.Solution.Course

/-!
# What a derivation reads

A relation reads its inputs and the values that it presumes, and asks whether its output is
bound, as a default does of its name. The names that catalogs mention so are their
**vocabulary**. The names of a formula are among the inputs, since the catalog is sound:

> `nextMove?_congr`, `Move.perform_congr`: at values that agree on the vocabulary the next
> move is the same, and leaves the same step.

So a binding outside the vocabulary goes along with every move (`course_insert`), and the
summary shows it. The checks of a catalog may read what they like, and warn alike if they
do not read the name either (`solveSession_insert`).
-/

namespace Stepwise

/-- The names that a relation mentions: its output, its inputs and those of the values
that it presumes. -/
def Relation.vocabulary (r : Relation) : List String :=
  r.gives.name :: (r.takes.map (·.name) ++ r.presumes.names)

/-- The names that a catalog mentions in its relations and its defaults. -/
def Catalog.vocabulary (c : Catalog) : List String :=
  c.relations.flatMap (·.vocabulary) ++ c.implicits.map (·.1)

/-- The names that some catalogs mention. -/
def vocabularyOf (imports : List Catalog) : List String := imports.flatMap (·.vocabulary)

/-- Two tables have the same values for some names, or both none. -/
def Bindings.AgreeOn (names : List String) (b b' : Bindings) : Prop :=
  ∀ name ∈ names, b'.get? name = b.get? name

variable {imports : List Catalog} {assuming : Bool} {b b' final : Bindings} {name : String}
  {value : Float}

/-! ## Agreement -/

theorem Bindings.AgreeOn.mono {names names' : List String} (h : AgreeOn names b b')
    (hsubset : names' ⊆ names) : AgreeOn names' b b' :=
  fun n hn => h n (hsubset hn)

theorem Bindings.agreeOn_insert {names : List String} (hname : name ∉ names) (b : Bindings)
    (value : Float) : AgreeOn names b (b.insert name value) := by
  intro n hn
  rw [get?_insert, if_neg]
  rintro rfl
  exact hname hn

/-! ## Vocabularies -/

theorem Relation.mem_vocabulary_iff {r : Relation} : name ∈ r.vocabulary ↔
    r.gives.name = name ∨ (∃ q ∈ r.takes, q.name = name) ∨ ∃ e ∈ r.presumes.entries, e.1 = name := by
  unfold vocabulary Bindings.names
  rw [List.mem_cons, List.mem_append, List.mem_map, List.mem_map, eq_comm]

theorem mem_vocabularyOf_iff : name ∈ vocabularyOf imports ↔
    (∃ r ∈ relationsOf imports, name ∈ r.2.vocabulary) ∨
      ∃ i ∈ implicitsOf imports, i.1 = name := by
  unfold vocabularyOf Catalog.vocabulary relationsOf implicitsOf
  simp only [List.mem_flatMap, List.mem_append, List.mem_map]
  constructor
  · rintro ⟨c, hc, ⟨relation, hrelation, hname⟩ | ⟨i, hi, hname⟩⟩
    · exact .inl ⟨(c.name, relation), ⟨c, hc, relation, hrelation, rfl⟩, hname⟩
    · exact .inr ⟨i, ⟨c, hc, hi⟩, hname⟩
  · rintro (⟨_, ⟨c, hc, relation, hrelation, rfl⟩, hname⟩ | ⟨i, ⟨c, hc, hi⟩, hname⟩)
    · exact ⟨c, hc, .inl ⟨relation, hrelation, hname⟩⟩
    · exact ⟨c, hc, .inr ⟨i, hi, hname⟩⟩

theorem vocabulary_subset {r : String × Relation} (h : r ∈ relationsOf imports) :
    r.2.vocabulary ⊆ vocabularyOf imports :=
  fun _ hname => mem_vocabularyOf_iff.2 (.inl ⟨r, h, hname⟩)

/-- A move binds a name of the vocabulary. -/
theorem target_mem_vocabularyOf {m : Move} (h : nextMove? imports assuming b = some m) :
    m.target ∈ vocabularyOf imports := by
  rw [mem_vocabularyOf_iff]
  rcases nextMove?_cases h with ⟨catalog, relation, rfl, hmem, -⟩ | ⟨name, value, rfl, hmem, -⟩
  · exact .inl ⟨_, hmem, Relation.mem_vocabulary_iff.2 (.inl rfl)⟩
  · exact .inr ⟨_, hmem, rfl⟩

/-! ## One move -/

theorem Relation.isApplicable_congr {r : Relation} (h : b.AgreeOn r.vocabulary b') :
    r.isApplicable b' = r.isApplicable b := by
  rw [Bool.eq_iff_iff, isApplicable_iff, isApplicable_iff]
  unfold Bindings.contains
  rw [h _ (mem_vocabulary_iff.2 (.inl rfl))]
  refine and_congr_right fun _ => and_congr (forall₂_congr fun q hq => ?_)
    (forall₂_congr fun e he => ?_)
  · rw [h _ (mem_vocabulary_iff.2 (.inr (.inl ⟨q, hq, rfl⟩)))]
  · rw [h _ (mem_vocabulary_iff.2 (.inr (.inr ⟨e, he, rfl⟩)))]

/-- **The next move hangs on the vocabulary.** -/
theorem nextMove?_congr (h : b.AgreeOn (vocabularyOf imports) b') :
    nextMove? imports assuming b' = nextMove? imports assuming b := by
  have hrelation : nextRelation? imports b' = nextRelation? imports b := by
    refine congrArg (Option.map _) (List.find?_congr fun r hr => ?_)
    exact Relation.isApplicable_congr (h.mono (vocabulary_subset hr))
  have himplicit : nextImplicit? imports b' = nextImplicit? imports b := by
    refine congrArg (Option.map _) (List.find?_congr fun i hi => ?_)
    unfold Bindings.contains
    rw [h _ (mem_vocabularyOf_iff.2 (.inr ⟨i, hi, rfl⟩))]
  unfold nextMove?
  rw [hrelation, himplicit]

namespace Move

/-- A relation that takes every name of its formula reads its inputs and nothing else. -/
theorem solve_congr {relation : Relation} {catalog : String}
    (hsound : relation.fault? catalog = none) (h : b.AgreeOn relation.vocabulary b') :
    solve relation b' = solve relation b := by
  have htakes : ∀ q ∈ relation.takes, b'.get? q.name = b.get? q.name :=
    fun q hq => h _ (Relation.mem_vocabulary_iff.2 (.inr (.inl ⟨q, hq, rfl⟩)))
  have hformula : relation.formula.substitute b' = relation.formula.substitute b := by
    refine Expr.substitute_congr fun n hn => ?_
    obtain ⟨q, hq, rfl⟩ := Relation.takesName_iff.1 ((Relation.fault?_eq_none_iff.1 hsound).2 n hn)
    exact htakes q hq
  have hgiven : (relation.takes.filterMap fun q => (b'.get? q.name).map (Given.mk q)) =
      relation.takes.filterMap fun q => (b.get? q.name).map (Given.mk q) :=
    List.filterMap_congr fun q hq => by rw [htakes q hq]
  unfold solve
  rw [hformula, hgiven]

/-- **A move leaves the same step** at values that agree on the vocabulary. -/
theorem perform_congr {m : Move} (hsound : ∀ c ∈ imports, c.fault? = none)
    (hnext : nextMove? imports assuming b = some m) (h : b.AgreeOn (vocabularyOf imports) b') :
    m.perform b' = m.perform b := by
  rcases nextMove?_cases hnext with ⟨catalog, relation, rfl, hmem, -⟩ | ⟨name, value, rfl, -⟩
  · obtain ⟨c, hc, rfl, hrelation⟩ := mem_relationsOf.1 hmem
    have hfaultless := Catalog.fault?_eq_none_iff.1 (hsound c hc) relation hrelation
    unfold perform
    dsimp only
    rw [solve_congr hfaultless (h.mono (vocabulary_subset hmem))]
  · rfl

end Move

/-! ## A name outside the vocabulary -/

/-- A run leaves the names that its imports do not mention as they are. -/
theorem Run.get?_of_not_mem {steps : List Step} (h : Run imports assuming b steps final)
    (hname : name ∉ vocabularyOf imports) : final.get? name = b.get? name := by
  induction h with
  | stay b => rfl
  | @move b final m step value steps hnext hperform hrun ih =>
    rw [ih, Bindings.get?_insert, if_neg]
    rintro rfl
    exact hname (target_mem_vocabularyOf hnext)

/-- **A binding outside the vocabulary goes along with every move.** -/
theorem course_insert (hsound : ∀ c ∈ imports, c.fault? = none)
    (hname : name ∉ vocabularyOf imports) (b : Bindings) (value : Float) :
    course imports assuming (b.insert name value) =
      ⟨(course imports assuming b).steps, (course imports assuming b).held.insert name value,
        (course imports assuming b).fault⟩ := by
  fun_induction course imports assuming b with
  | case1 b hnone =>
    have hagree := Bindings.agreeOn_insert hname b value
    exact course_of_none ((nextMove?_congr hagree).trans hnone)
  | case2 b m hnext fault hperform =>
    have hagree := Bindings.agreeOn_insert hname b value
    exact course_of_error ((nextMove?_congr hagree).trans hnext)
      ((Move.perform_congr hsound hnext hagree).trans hperform)
  | case3 b m hnext step x hperform rest ih =>
    have hagree := Bindings.agreeOn_insert hname b value
    have htarget : name ≠ m.target := by
      rintro rfl
      exact hname (target_mem_vocabularyOf hnext)
    rw [course_of_ok ((nextMove?_congr hagree).trans hnext)
      ((Move.perform_congr hsound hnext hagree).trans hperform),
      Bindings.insert_comm b htarget, ih]

/-- A check does not read a name: it says the same of tables that differ there alone. -/
def Warning.Ignores (w : Warning) (name : String) : Prop :=
  ∀ b b' : Bindings, (∀ n, n ≠ name → b'.get? n = b.get? n) → w.check b' = w.check b

/-- A check of the value of one name reads no other. -/
theorem Warning.ignores_onValue {id read : String} {fires : Float → Bool}
    {advice : Float → Advice} (hname : read ≠ name) :
    (onValue id read fires advice).Ignores name := by
  intro b b' h
  show (b'.get? read).bind _ = (b.get? read).bind _
  rw [h read hname]

theorem warningSteps_of_ignores {hints : List String}
    (h : ∀ c ∈ imports, ∀ w ∈ c.warnings, w.Ignores name) (b : Bindings) (value : Float) :
    warningSteps imports hints (b.insert name value) = warningSteps imports hints b := by
  unfold warningSteps
  refine List.filterMap_congr fun w hw => ?_
  obtain ⟨c, hc, hw⟩ := List.mem_flatMap.1 hw
  have hcheck := h c hc w hw b (b.insert name value) fun n hn => by
    rw [Bindings.get?_insert, if_neg hn]
  rw [hcheck]

/-! ## Traces with one more binding -/

/-- A step with one more value, which only a summary shows. -/
def Step.gain (name : String) (value : Float) : Step → Step
  | .summary values => .summary (values.insert name value)
  | step => step

theorem map_gain {steps : List Step} (h : ∀ values, .summary values ∉ steps) :
    steps.map (Step.gain name value) = steps := by
  refine (List.map_congr_left fun step hstep => ?_).trans (List.map_id _)
  cases step with
  | summary values => exact absurd hstep (h values)
  | error message => rfl
  | hint hint => rfl
  | solved s => rfl

theorem trace_course_insert (hsound : ∀ c ∈ imports, c.fault? = none)
    (hname : name ∉ vocabularyOf imports) (b : Bindings) (value : Float) :
    (course imports assuming (b.insert name value)).trace =
      (course imports assuming b).trace.map (Step.gain name value) := by
  rw [course_insert hsound hname]
  unfold Course.trace
  rw [List.map_append, map_gain fun _ => run_course.summary_not_mem]
  dsimp only
  split
  · rfl
  · rfl

namespace Registry

variable {r : Registry} {s : Session}

theorem traceSession_insert (hvocabulary : name ∉ vocabularyOf (r.importsOf s))
    (hwarnings : ∀ c ∈ r.importsOf s, ∀ w ∈ c.warnings, w.Ignores name) (value : Float) :
    r.traceSession { s with values := s.values.insert name value } =
      ((r.traceSession s).1.map (Step.gain name value), (r.traceSession s).2) := by
  unfold traceSession
  cases hresolve : r.resolve s.libraries with
  | error unknown => rfl
  | ok imports =>
    rw [importsOf_eq hresolve] at hvocabulary hwarnings
    cases imports with
    | nil =>
      dsimp only
      rw [List.map_append, map_gain fun _ => summary_not_mem_unknownHintSteps]
      rfl
    | cons c imports =>
      have hsound := fault?_of_resolve hresolve
      have hfault : (course (c :: imports) (!s.hasHint noImplicit) (s.values.insert name value)).fault =
          (course (c :: imports) (!s.hasHint noImplicit) s.values).fault := by
        rw [course_insert hsound hvocabulary]
      dsimp only
      rw [List.map_append, List.map_append, map_gain fun _ => summary_not_mem_unknownHintSteps,
        map_gain fun _ => summary_not_mem_warningSteps, warningSteps_of_ignores hwarnings,
        ← trace_course_insert hsound hvocabulary]
      exact Prod.ext rfl hfault

/-- **A binding that nothing reads changes nothing but the summary.** Let a session not bind
a name that none of its imports mentions and that no check of theirs reads. With any value
for it, the session fails with the same fault, or has the same steps up to the summary, and
that gains this one binding, which it did not have. The lines that say the two sessions with
the same faults have such traces. -/
theorem solveSession_insert (hunbound : s.values.get? name = none)
    (hvocabulary : name ∉ vocabularyOf (r.importsOf s))
    (hwarnings : ∀ c ∈ r.importsOf s, ∀ w ∈ c.warnings, w.Ignores name) (value : Float) :
    r.solveSession { s with values := s.values.insert name value } =
        (r.solveSession s).map (·.map (Step.gain name value)) ∧
      (∀ steps final, r.solveSession s = .ok steps → .summary final ∈ steps →
        final.get? name = none) ∧
      ∀ line line', (Session.read line).session = s →
        (Session.read line').session = { s with values := s.values.insert name value } →
        (Session.read line').faults = (Session.read line).faults →
          r.solve line' = (r.solve line).map (·.map (Step.gain name value)) := by
  have hsession : r.solveSession { s with values := s.values.insert name value } =
      (r.solveSession s).map (·.map (Step.gain name value)) := by
    rw [solveSession_eq_trace, solveSession_eq_trace, traceSession_insert hvocabulary hwarnings]
    cases (r.traceSession s).2 with
    | none => rfl
    | some fault => rfl
  refine ⟨hsession, fun steps final hsolve hsummary => ?_, ?_⟩
  · obtain ⟨imports, moves, hresolve, -, hrun, -⟩ := solveSession_summary hsolve hsummary
    rw [importsOf_eq hresolve] at hvocabulary
    rw [hrun.get?_of_not_mem hvocabulary, hunbound]
  · rintro line line' rfl hline hfaults
    have herrors : faultErrors (Session.read line') = faultErrors (Session.read line) :=
      congrArg (List.map _) hfaults
    have hgain : (faultErrors (Session.read line)).map (Step.gain name value) =
        faultErrors (Session.read line) := by
      refine map_gain fun values hmem => ?_
      obtain ⟨fault, -, heq⟩ := List.mem_map.1 hmem
      cases heq
    show (r.solveSession (Session.read line').session).map (faultErrors _ ++ ·) =
      ((r.solveSession _).map (faultErrors _ ++ ·)).map _
    rw [hline, hsession, herrors, map_map, map_map]
    refine congrArg (Except.map · (r.solveSession (Session.read line).session)) ?_
    funext steps
    show faultErrors _ ++ steps.map _ = (faultErrors _ ++ steps).map _
    rw [List.map_append, hgain]

/-- A name that kinematics does not mention, beside a value that one of its checks warns of. -/
theorem solveSession_insert_kinematics :
    builtin.solve "!kinematics dy=5 q=7" =
      (builtin.solve "!kinematics dy=5").map (·.map (Step.gain "q" 7.0)) ∧
    (builtin.solve "!kinematics dy=5").toOption.map (·.length) = some 10 := by
  have hwarnings : ∀ w ∈ Kinematics.warnings, w.Ignores "q" := by
    intro w hw
    simp only [Kinematics.warnings, List.mem_cons, List.not_mem_nil, or_false] at hw
    rcases hw with rfl | rfl | rfl
    · exact Warning.ignores_onValue (by decide)
    · exact Warning.ignores_onValue (by decide)
    · exact Warning.ignores_onValue (by decide)
  have himports : builtin.importsOf (Session.read "!kinematics dy=5").session =
      [Kinematics.catalog] := by
    have hlibraries : (Session.read "!kinematics dy=5").session.libraries = ["kinematics"] := by
      decide +kernel
    unfold importsOf
    rw [hlibraries]
    rfl
  have hread : (Session.read "!kinematics dy=5 q=7").session =
      { (Session.read "!kinematics dy=5").session with
        values := (Session.read "!kinematics dy=5").session.values.insert "q" 7.0 } := by
    refine (Session.mk.injEq ..).mpr ⟨?_, ?_, Bindings.ext ?_⟩
    · decide +kernel
    · decide +kernel
    · decide +kernel
  obtain ⟨-, -, hlines⟩ := @solveSession_insert "q" builtin (Session.read "!kinematics dy=5").session
    (by decide +kernel) (by decide +kernel)
    (himports ▸ List.forall_mem_singleton.2 hwarnings) 7.0
  exact ⟨hlines _ _ rfl hread (by decide +kernel), by decide +kernel⟩

end Registry

end Stepwise
