import Mathlib.Data.List.Basic
import Stepwise.Proofs.Solution.Policy

/-!
# Solved steps checked on their own

A solved step shows its inputs, its formula and its result, and that is enough to check
it. Registration has seen to it that the formula names inputs only, so the values
shown are all that substitution reads; and as no later step changes a value, the
summary does as well:

> `Move.checksAt_of_solve`: a solved step checks at every table that agrees, on the
> inputs, with the values at which the relation was used.
-/

namespace Stepwise

/-- Substituted into the formula of a step, some values give its tree, and the value of
the tree rounds to its result. -/
structure Solved.ChecksAt (s : Solved) (b : Bindings) : Prop where
  substituted : s.equation.substitute b = .ok s.substituted
  result : ∃ value, s.substituted.evaluate = .ok value ∧ s.result = roundResult value

/-- The values that a step shows. -/
def Solved.shown (s : Solved) : Bindings := .ofList (s.given.map fun g => (g.quantity.name, g.value))

/-! ## One relation -/

namespace Move

variable {relation : Relation} {held b : Bindings} {s : Solved}

/-- **A solved step checks at every table with the same inputs**, since its formula
names nothing else. -/
theorem checksAt_of_solve {catalog : String} (hsound : relation.fault? catalog = none)
    (hsolve : solve relation held = .ok s)
    (hinputs : ∀ q ∈ relation.takes, b.get? q.name = held.get? q.name) : s.ChecksAt b := by
  obtain ⟨substituted, value, hsubstitute, hevaluate, rfl⟩ := solve_eq_ok_iff.1 hsolve
  refine ⟨?_, value, hevaluate, rfl⟩
  refine (Expr.substitute_congr fun name hname => ?_).trans hsubstitute
  obtain ⟨q, hq, rfl⟩ := Relation.takesName_iff.1
    ((Relation.fault?_eq_none_iff.1 hsound).2 name hname)
  exact hinputs q hq

/-- The inputs of an applicable relation are shown with the values that they have, all
of them and in the order of declaration. -/
theorem given_of_solve (happlicable : relation.isApplicable held = true)
    (hsolve : solve relation held = .ok s) :
    s.given.map (·.quantity) = relation.takes ∧
      ∀ g ∈ s.given, held.get? g.quantity.name = some g.value := by
  obtain ⟨substituted, value, -, -, rfl⟩ := solve_eq_ok_iff.1 hsolve
  have hbound := (Relation.isApplicable_iff.1 happlicable).2.1
  constructor
  · show (relation.takes.filterMap _).map _ = _
    rw [List.map_filterMap]
    refine (List.filterMap_congr fun q hq => ?_).trans (List.filterMap_some ..)
    obtain ⟨v, hv⟩ := Bindings.contains_iff.1 (hbound q hq)
    rw [hv]
    rfl
  · intro g hg
    obtain ⟨q, -, hq⟩ := List.mem_filterMap.1 hg
    obtain ⟨v, hv, rfl⟩ := Option.map_eq_some_iff.1 hq
    exact hv

/-- What a step shows of its inputs is what was held. -/
theorem get?_shown (happlicable : relation.isApplicable held = true)
    (hsolve : solve relation held = .ok s) {q : Quantity} (hq : q ∈ relation.takes) :
    s.shown.get? q.name = held.get? q.name := by
  obtain ⟨hquantities, hvalues⟩ := given_of_solve happlicable hsolve
  have hheld : ∀ e ∈ s.given.map (fun g => (g.quantity.name, g.value)),
      held.get? e.1 = some e.2 := by
    intro e he
    obtain ⟨g, hg, rfl⟩ := List.mem_map.1 he
    exact hvalues g hg
  have hnamed : q.name ∈ (s.given.map fun g => (g.quantity.name, g.value)).map (·.1) := by
    rw [← hquantities] at hq
    obtain ⟨g, hg, rfl⟩ := List.mem_map.1 hq
    exact List.mem_map.2 ⟨_, List.mem_map.2 ⟨g, hg, rfl⟩, rfl⟩
  unfold Solved.shown Bindings.ofList
  rw [Bindings.get?_insertAll_of_held hheld, if_pos hnamed]

/-- The relation that the next move uses is the first that can be used. -/
theorem isFirst_of_nextMove? {imports : List Catalog} {assuming : Bool} {catalog : String}
    (hnext : nextMove? imports assuming held = some (.fire catalog relation)) :
    IsFirst (·.2.Usable held) (relationsOf imports) (catalog, relation) := by
  obtain ⟨found, hfind, heq⟩ := Option.map_eq_some_iff.1 (nextRelation?_of_fire hnext)
  cases heq
  exact isFirst_of_find? (fun _ => Relation.usable_iff) hfind

/-- The relation that the next move uses is the first of its catalog that can be used. -/
theorem exists_find?_of_nextMove? {imports : List Catalog} {assuming : Bool} {catalog : String}
    (hnext : nextMove? imports assuming held = some (.fire catalog relation)) :
    ∃ c ∈ imports, c.relations.find? (·.isApplicable held) = some relation := by
  obtain ⟨⟨_, _⟩, hfind, heq⟩ := Option.map_eq_some_iff.1 (nextRelation?_of_fire hnext)
  cases heq
  unfold relationsOf at hfind
  rw [List.find?_flatMap] at hfind
  obtain ⟨c, hc, hfind⟩ := List.exists_of_findSome?_eq_some hfind
  rw [List.find?_map] at hfind
  obtain ⟨r, hfind, heq⟩ := Option.map_eq_some_iff.1 hfind
  cases heq
  exact ⟨c, hc, hfind⟩

end Move

/-! ## Session lines -/

namespace Registry

variable {r : Registry} {line : String} {steps before after : List Step} {s : Solved}

/-- A solved step begins a run, from the values that the trace has reached there to
those of the summary. -/
theorem exists_run_of_solved (h : r.solve line = .ok steps)
    (hsplit : steps = before ++ .solved s :: after) :
    ∃ imports held moves final, r.resolve (Session.read line).session.libraries = .ok imports ∧
      replay (Session.read line).session.values before = some held ∧
      Run imports (!(Session.read line).session.hasHint noImplicit) held (.solved s :: moves) final ∧
      steps.getLast? = some (.summary final) := by
  have hmem : .solved s ∈ steps := hsplit ▸ List.mem_append_right _ List.mem_cons_self
  obtain ⟨final, hsummary⟩ := exists_summary h hmem rfl
  obtain ⟨imports, moves, hresolve, -, hrun, -, htrace⟩ := solve_summary h hsummary
  have hlast : steps.getLast? = some (.summary final) := by
    rw [htrace]
    exact List.getLast?_concat ..
  -- The step stands behind the remarks and before the summary.
  have hremark : .solved s ∉ remarks imports (Session.read line) := by
    intro hremark
    cases isProgress_of_mem_remarks hremark
  have hsummary : .solved s ∉ [Step.summary final] := by
    rw [List.mem_singleton]
    intro heq
    cases heq
  rw [hsplit, List.append_assoc] at htrace
  obtain ⟨mid, rfl, hmid⟩ := append_eq_append_cons htrace.symm hremark
  obtain ⟨rest, rfl, -⟩ := append_eq_append_cons_left hmid hsummary
  obtain ⟨held, hbefore, hafter⟩ := hrun.of_append
  refine ⟨imports, held, rest, final, hresolve, ?_, hafter, hlast⟩
  rw [replay_append, replay_of_forall_bound?_eq_none fun _ => bound?_of_mem_remarks]
  exact hbefore.replay_eq

/-- A solved step is the use of a relation of a registered catalog, the first there that
could be used. -/
theorem exists_relation_of_solved (h : r.solve line = .ok steps) (hs : .solved s ∈ steps) :
    ∃ c ∈ r.catalogs, ∃ relation held,
      c.relations.find? (·.isApplicable held) = some relation ∧
        Move.solve relation held = .ok s := by
  obtain ⟨before, after, hsplit⟩ := List.append_of_mem hs
  obtain ⟨imports, held, moves, final, hresolve, -, hrun, -⟩ := exists_run_of_solved h hsplit
  cases hrun with
  | @move _ _ m _ _ _ hnext hperform _ =>
    rcases Move.perform_eq_ok hperform with ⟨catalog, relation, _, rfl, hsolve, heq, -⟩ |
      ⟨_, _, heq⟩
    · cases heq
      obtain ⟨c, hc, hfind⟩ := Move.exists_find?_of_nextMove? hnext
      obtain ⟨name, -, hget⟩ := mem_of_resolve hresolve hc
      exact ⟨c, mem_of_get? hget, relation, held, hfind, hsolve⟩
    · cases heq

/-- **Every solved step can be checked on its own**: the relation that was used there,
the first that could be, has the inputs that the step shows; the values shown give its
tree and its result; and so do the values of the summary, which satisfies, up to
rounding, every relation that was used. -/
theorem solve_checked (h : r.solve line = .ok steps)
    (hsplit : steps = before ++ .solved s :: after) :
    ∃ held catalog relation final,
      replay (Session.read line).session.values before = some held ∧
      IsFirst (·.2.Usable held) (relationsOf (r.importsOf (Session.read line).session))
        (catalog, relation) ∧
      s.equation = relation.formula ∧ s.unknown = relation.gives ∧
      s.given.map (·.quantity) = relation.takes ∧ s.ChecksAt s.shown ∧
      steps.getLast? = some (.summary final) ∧ s.ChecksAt final ∧
      final.get? s.unknown.name = some s.result := by
  obtain ⟨imports, held, moves, final, hresolve, hheld, hrun, hlast⟩ :=
    exists_run_of_solved h hsplit
  have hreplay := hrun.replay_eq
  rw [importsOf_eq hresolve]
  cases hrun with
  | @move _ _ m _ _ _ hnext hperform _ =>
    rcases Move.perform_eq_ok hperform with ⟨catalog, relation, _, rfl, hsolve, heq, -⟩ |
      ⟨_, _, heq⟩
    · cases heq
      have hfirst := Move.isFirst_of_nextMove? hnext
      have happlicable := Relation.usable_iff.2 hfirst.1
      obtain ⟨hquantities, -⟩ := Move.given_of_solve happlicable hsolve
      have hsound : relation.fault? catalog = none := by
        obtain ⟨_, front, back, hrelations, -⟩ := hfirst
        have hmem : (catalog, relation) ∈ relationsOf imports :=
          hrelations ▸ List.mem_append_right _ List.mem_cons_self
        obtain ⟨c, hc, rfl, hrelation⟩ := mem_relationsOf.1 hmem
        obtain ⟨name, -, hget⟩ := mem_of_resolve hresolve hc
        exact Catalog.fault?_eq_none_iff.1 (r.sound c (mem_of_get? hget)) relation hrelation
      refine ⟨held, catalog, relation, final, hheld, hfirst, ?_, ?_, hquantities, ?_, hlast, ?_, ?_⟩
      · obtain ⟨_, _, -, -, rfl⟩ := Move.solve_eq_ok_iff.1 hsolve
        rfl
      · obtain ⟨_, _, -, -, rfl⟩ := Move.solve_eq_ok_iff.1 hsolve
        rfl
      · exact Move.checksAt_of_solve hsound hsolve fun q hq => Move.get?_shown happlicable hsolve hq
      · -- The inputs are bound, and the rest of the run keeps them.
        refine Move.checksAt_of_solve hsound hsolve fun q hq => ?_
        obtain ⟨v, hv⟩ := Bindings.contains_iff.1
          ((Relation.isApplicable_iff.1 happlicable).2.1 q hq)
        rw [hv]
        exact replay_keeps hreplay hv
      · exact replay_bound hreplay List.mem_cons_self rfl
    · cases heq

/-- A step whose inputs are a value of the line and a value found before it. -/
theorem solve_checked_slopes : ∃ steps before s after,
    builtin.solve "!slopes xi=1 Dx=2 m=3" = .ok steps ∧ steps = before ++ .solved s :: after ∧
      before.length = 2 ∧ s.ChecksAt s.shown ∧
      ∃ final, steps.getLast? = some (.summary final) ∧ s.ChecksAt final ∧
        final.get? s.unknown.name = some s.result := by
  have hshows : builtin.shows "!slopes xi=1 Dx=2 m=3" 2 (·.solved?.isSome) = true := by
    decide +kernel
  obtain ⟨steps, before, step, after, hsolve, hsplit, hplace, hstep⟩ :=
    exists_split_of_shows hshows
  cases step with
  | solved s =>
    obtain ⟨_, _, _, final, -, -, -, -, -, hshown, hlast, hfinal, hresult⟩ :=
      solve_checked hsolve hsplit
    exact ⟨steps, before, s, after, hsolve, hsplit, hplace, hshown, final, hlast, hfinal, hresult⟩
  | error message => cases hstep
  | hint hint => cases hstep
  | summary values => cases hstep

end Registry

end Stepwise
