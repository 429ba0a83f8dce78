import Stepwise.Proofs.Solution.Policy
import Mathlib.Data.Set.Insert
import Mathlib.Order.Bounds.Defs

/-!
# The names that can be derived

The order in which relations are tried decides values, never names. A set of names is
**closed** under a session if it has the names of the session and of its defaults and,
with all inputs of a relation, the output. Every run stays inside every closed set, and
where no relation presumes values a run ends in a closed set:

> `Run.names_subset`: what a run binds is in every closed set.
> `closed_names`: without presumptions, what is bound where no move is left is closed.

So a summary binds the least closed set of names, whatever the order of catalogs and
of relations (`solve_derivable`).
-/

namespace Stepwise

/-- The bound names as a set. -/
def Bindings.nameSet (b : Bindings) : Set String := {name | b.contains name = true}

/-- Some names include those of a session and of its defaults and, with the inputs of
a relation that it imports, the output. -/
structure Closed (imports : List Catalog) (assuming : Bool) (b : Bindings) (names : Set String) :
    Prop where
  given : b.nameSet ⊆ names
  assumed : assuming = true → ∀ c ∈ imports, ∀ i ∈ c.implicits, i.1 ∈ names
  derived : ∀ c ∈ imports, ∀ relation ∈ c.relations, (∀ q ∈ relation.takes, q.name ∈ names) →
    relation.gives.name ∈ names

variable {imports : List Catalog} {assuming : Bool} {b final : Bindings} {steps : List Step}

theorem Bindings.nameSet_insert (b : Bindings) (name : String) (value : Float) :
    (b.insert name value).nameSet = Insert.insert name b.nameSet := by
  ext m
  show (b.insert name value).contains m = true ↔ m = name ∨ b.contains m = true
  rw [Bindings.contains_insert, Bool.or_eq_true, beq_iff_eq]

theorem Bindings.mem_nameSet_iff {b : Bindings} {name : String} :
    name ∈ b.nameSet ↔ name ∈ b.names := by
  show b.contains name = true ↔ name ∈ b.entries.map (·.1)
  rw [Bindings.contains_iff, List.mem_map]
  constructor
  · rintro ⟨value, hvalue⟩
    exact ⟨(name, value), Bindings.mem_entries_iff.2 hvalue, rfl⟩
  · rintro ⟨⟨_, value⟩, hmem, rfl⟩
    exact ⟨value, Bindings.mem_entries_iff.1 hmem⟩

/-! ## Runs stay inside closed sets -/

/-- A move binds a name of every closed set that has the names bound before. -/
theorem Closed.target_mem {given : Bindings} {names : Set String}
    (hclosed : Closed imports assuming given names) (hb : b.nameSet ⊆ names) {m : Move}
    (hnext : nextMove? imports assuming b = some m) : m.target ∈ names := by
  rcases nextMove?_cases hnext with ⟨catalog, relation, rfl, hmem, happlicable⟩ |
    ⟨name, value, rfl, hmem, -, hassuming, -⟩
  · obtain ⟨c, hc, -, hrelation⟩ := mem_relationsOf.1 hmem
    refine hclosed.derived c hc relation hrelation fun q hq => hb ?_
    exact (Relation.isApplicable_iff.1 happlicable).2.1 q hq
  · obtain ⟨c, hc, hi⟩ := List.mem_flatMap.1 hmem
    exact hclosed.assumed hassuming c hc _ hi

/-- **What a run binds is in every closed set.** -/
theorem Run.names_subset {given : Bindings} {names : Set String}
    (h : Run imports assuming b steps final) (hclosed : Closed imports assuming given names)
    (hb : b.nameSet ⊆ names) : final.nameSet ⊆ names := by
  induction h with
  | stay b => exact hb
  | move hnext hperform hrun ih =>
    refine ih ?_
    rw [Bindings.nameSet_insert]
    exact Set.insert_subset (hclosed.target_mem hb hnext) hb

/-! ## Runs end in closed sets -/

/-- What was bound before a run is bound behind it. -/
theorem Run.subset_names (h : Run imports assuming b steps final) : b.nameSet ⊆ final.nameSet := by
  intro name hname
  obtain ⟨value, hvalue⟩ := Bindings.contains_iff.1 hname
  exact Bindings.contains_iff.2 ⟨value, replay_keeps h.replay_eq hvalue⟩

/-- No relation of some catalogs presumes a value. -/
def Unpresuming (imports : List Catalog) : Prop :=
  ∀ c ∈ imports, ∀ relation ∈ c.relations, relation.presumes.entries = []

/-- **Without presumptions, what is bound where no move is left is closed.** -/
theorem Run.closed_names (h : Run imports assuming b steps final)
    (hend : nextMove? imports assuming final = none) (hfree : Unpresuming imports) :
    Closed imports assuming b final.nameSet := by
  obtain ⟨hrelations, himplicits⟩ := nextMove?_eq_none_iff.1 hend
  refine ⟨h.subset_names, fun hassuming c hc i hi => ?_, fun c hc relation hrelation htakes => ?_⟩
  · exact Bindings.contains_iff.2 (himplicits hassuming i (List.mem_flatMap.2 ⟨c, hc, hi⟩))
  · -- If the output were unbound, the relation could be used.
    show final.contains relation.gives.name = true
    rw [← Bool.not_eq_false, Bindings.contains_eq_false_iff]
    intro hunbound
    refine hrelations (c.name, relation) (mem_relationsOf.2 ⟨c, hc, rfl, hrelation⟩)
      ⟨hunbound, fun q hq => Bindings.contains_iff.1 (htakes q hq), fun name presumed hmem => ?_⟩
    rw [hfree c hc relation hrelation] at hmem
    cases hmem

/-! ## What closure depends on -/

/-- Catalogs with the same relations and the same defaults, in whatever order. -/
structure SameContent (imports imports' : List Catalog) : Prop where
  relations : ∀ relation, (∃ c ∈ imports, relation ∈ c.relations) ↔
    ∃ c ∈ imports', relation ∈ c.relations
  implicits : ∀ i, (∃ c ∈ imports, i ∈ c.implicits) ↔ ∃ c ∈ imports', i ∈ c.implicits

namespace SameContent

variable {imports' : List Catalog}

theorem symm (h : SameContent imports imports') : SameContent imports' imports :=
  ⟨fun relation => (h.relations relation).symm, fun i => (h.implicits i).symm⟩

/-- The order of imports does not show. -/
theorem of_perm (h : imports.Perm imports') : SameContent imports imports' :=
  ⟨fun relation => by simp only [h.mem_iff], fun i => by simp only [h.mem_iff]⟩

theorem unpresuming (h : SameContent imports imports') (hfree : Unpresuming imports) :
    Unpresuming imports' := by
  intro c' hc' relation hrelation
  obtain ⟨c, hc, hrelation⟩ := (h.relations relation).2 ⟨c', hc', hrelation⟩
  exact hfree c hc relation hrelation

/-- A set that is closed under one session is closed under another of the same content
and of fewer names. -/
theorem closed {given given' : Bindings} {names : Set String} (h : SameContent imports imports')
    (hgiven : given.nameSet ⊆ given'.nameSet) (hclosed : Closed imports' assuming given' names) :
    Closed imports assuming given names := by
  refine ⟨hgiven.trans hclosed.given, fun hassuming c hc i hi => ?_,
    fun c hc relation hrelation htakes => ?_⟩
  · obtain ⟨c', hc', hi⟩ := (h.implicits i).1 ⟨c, hc, hi⟩
    exact hclosed.assumed hassuming c' hc' i hi
  · obtain ⟨c', hc', hrelation⟩ := (h.relations relation).1 ⟨c, hc, hrelation⟩
    exact hclosed.derived c' hc' relation hrelation htakes

end SameContent

/-! ## Session lines -/

namespace Registry

variable {r : Registry} {line : String}

/-- A line is solved with a summary of these values. -/
def EndsIn (r : Registry) (line : String) (final : Bindings) : Prop :=
  ∃ steps, r.solve line = .ok steps ∧ .summary final ∈ steps

theorem EndsIn.exists_run (h : r.EndsIn line final) :
    ∃ moves, Run (r.importsOf (Session.read line).session)
        (!(Session.read line).session.hasHint noImplicit) (Session.read line).session.values
        moves final ∧
      nextMove? (r.importsOf (Session.read line).session)
        (!(Session.read line).session.hasHint noImplicit) final = none := by
  obtain ⟨steps, hsolve, hsummary⟩ := h
  obtain ⟨imports, moves, hresolve, -, hrun, hend, -⟩ := solve_summary hsolve hsummary
  rw [importsOf_eq hresolve]
  exact ⟨moves, hrun, hend⟩

/-- The closed sets of names of a session line. -/
def closedSets (r : Registry) (line : String) : Set (Set String) :=
  {names | Closed (r.importsOf (Session.read line).session)
    (!(Session.read line).session.hasHint noImplicit) (Session.read line).session.values names}

theorem EndsIn.mem_lowerBounds (h : r.EndsIn line final) :
    final.nameSet ∈ lowerBounds (r.closedSets line) := by
  obtain ⟨moves, hrun, -⟩ := h.exists_run
  intro names hclosed
  exact hrun.names_subset hclosed hclosed.given

theorem EndsIn.isLeast (h : r.EndsIn line final)
    (hfree : Unpresuming (r.importsOf (Session.read line).session)) :
    IsLeast (r.closedSets line) final.nameSet := by
  obtain ⟨moves, hrun, hend⟩ := h.exists_run
  exact ⟨hrun.closed_names hend hfree, h.mem_lowerBounds⟩

/-- Of two lines with the same content, the one with fewer names derives fewer. -/
theorem EndsIn.nameSet_subset {r' : Registry} {line' : String} {final' : Bindings}
    (h : r.EndsIn line final) (h' : r'.EndsIn line' final')
    (hfree : Unpresuming (r'.importsOf (Session.read line').session))
    (hcontent : SameContent (r.importsOf (Session.read line).session)
      (r'.importsOf (Session.read line').session))
    (hhint : (Session.read line).session.hasHint noImplicit =
      (Session.read line').session.hasHint noImplicit)
    (hgiven : (Session.read line).session.values.nameSet ⊆
      (Session.read line').session.values.nameSet) :
    final.nameSet ⊆ final'.nameSet := by
  refine h.mem_lowerBounds ?_
  unfold closedSets
  rw [hhint]
  exact hcontent.closed hgiven (h'.isLeast hfree).1

/-- **A summary binds the names that can be derived**: no more than any closed set has
and, without presumptions, the least closed set. So the order of imports and relations
does not change which names are bound, and more names in the line do not lose any. -/
theorem solve_derivable (h : r.EndsIn line final) :
    final.nameSet ∈ lowerBounds (r.closedSets line) ∧
    (Unpresuming (r.importsOf (Session.read line).session) →
      IsLeast (r.closedSets line) final.nameSet ∧
      ∀ r' line' final', EndsIn r' line' final' →
        SameContent (r.importsOf (Session.read line).session)
          (r'.importsOf (Session.read line').session) →
        (Session.read line).session.hasHint noImplicit =
          (Session.read line').session.hasHint noImplicit →
        ((Session.read line).session.values.nameSet ⊆
          (Session.read line').session.values.nameSet → final.nameSet ⊆ final'.nameSet) ∧
        ((Session.read line).session.values.nameSet =
          (Session.read line').session.values.nameSet → final.nameSet = final'.nameSet)) := by
  refine ⟨h.mem_lowerBounds, fun hfree => ⟨h.isLeast hfree, ?_⟩⟩
  intro r' line' final' h' hcontent hhint
  have hfree' := hcontent.unpresuming hfree
  refine ⟨h.nameSet_subset h' hfree' hcontent hhint, fun hgiven => ?_⟩
  refine Set.Subset.antisymm (h.nameSet_subset h' hfree' hcontent hhint hgiven.subset) ?_
  exact h'.nameSet_subset h hfree hcontent.symm hhint.symm hgiven.superset

/-- Catalogs that share names, imported in either order and with other values. -/
theorem solve_derivable_swapped : ∃ final final',
    builtin.EndsIn "!slopes !unit-circle xi=1 Dx=2" final ∧
    builtin.EndsIn "!unit-circle !slopes Dx=5 xi=-3" final' ∧
    Unpresuming (builtin.importsOf (Session.read "!slopes !unit-circle xi=1 Dx=2").session) ∧
    IsLeast (builtin.closedSets "!slopes !unit-circle xi=1 Dx=2") final.nameSet ∧
    final.nameSet = final'.nameSet := by
  have hends : builtin.ends "!slopes !unit-circle xi=1 Dx=2" = true := by decide +kernel
  have hends' : builtin.ends "!unit-circle !slopes Dx=5 xi=-3" = true := by decide +kernel
  obtain ⟨steps, final, hsolve, hsummary⟩ := exists_steps_of_ends hends
  obtain ⟨steps', final', hsolve', hsummary'⟩ := exists_steps_of_ends hends'
  have hpresumes : (builtin.importsOf (Session.read "!slopes !unit-circle xi=1 Dx=2").session).all
      (·.relations.all (·.presumes.entries.isEmpty)) = true := by decide +kernel
  have hfree : Unpresuming
      (builtin.importsOf (Session.read "!slopes !unit-circle xi=1 Dx=2").session) := by
    intro c hc relation hrelation
    exact List.isEmpty_iff.1 (List.all_eq_true.1 (List.all_eq_true.1 hpresumes c hc) _ hrelation)
  have hlibraries : (Session.read "!slopes !unit-circle xi=1 Dx=2").session.libraries.Perm
      (Session.read "!unit-circle !slopes Dx=5 xi=-3").session.libraries := by decide +kernel
  have hnames : (Session.read "!slopes !unit-circle xi=1 Dx=2").session.values.names =
      (Session.read "!unit-circle !slopes Dx=5 xi=-3").session.values.names := by decide +kernel
  obtain ⟨hleast, hother⟩ := (solve_derivable ⟨steps, hsolve, hsummary⟩).2 hfree
  refine ⟨final, final', ⟨steps, hsolve, hsummary⟩, ⟨steps', hsolve', hsummary'⟩, hfree, hleast,
    (hother builtin _ final' ⟨steps', hsolve', hsummary'⟩
      (.of_perm (hlibraries.filterMap _)) (by decide +kernel)).2 ?_⟩
  ext name
  rw [Bindings.mem_nameSet_iff, Bindings.mem_nameSet_iff, hnames]

end Registry

end Stepwise
