import Stepwise.Proofs.Catalog
import Stepwise.Proofs.Solution.Replay

/-!
# The policy of a run

Which step comes next hangs on nothing but the values held. The first relation that
can be used is used; only if there is none is the first missing default assumed; and
only if there is none of these either does the trace end. `Prescribed` says so
without the search of the derivation, and a trace is read without its run:

> `solve_prescribed`: replay a trace up to any solved step, assumption or summary;
> the policy prescribes that step at the values reached.
-/

namespace Stepwise

/-! ## First hits -/

/-- An item of a list with a property that no item before it has. -/
def IsFirst {α : Type} (p : α → Prop) (l : List α) (a : α) : Prop :=
  p a ∧ ∃ front back, l = front ++ a :: back ∧ ∀ x ∈ front, ¬ p x

/-- A search finds the first item with the property that it tests. -/
theorem isFirst_of_find? {α : Type} {test : α → Bool} {p : α → Prop}
    (htest : ∀ x, test x = true ↔ p x) {l : List α} {a : α} (h : l.find? test = some a) :
    IsFirst p l a := by
  obtain ⟨ha, front, back, rfl, hfront⟩ := List.find?_eq_some_iff_append.1 h
  refine ⟨(htest a).1 ha, front, back, rfl, fun x hx hp => ?_⟩
  have hfails := hfront x hx
  rw [(htest x).2 hp] at hfails
  cases hfails

/-! ## Relations that can be used -/

/-- The output has no value, every input has one, and every presumed value equals
the current one. -/
def Relation.Usable (r : Relation) (b : Bindings) : Prop :=
  b.get? r.gives.name = none ∧ (∀ q ∈ r.takes, ∃ value, b.get? q.name = some value) ∧
    ∀ name presumed, (name, presumed) ∈ r.presumes.entries →
      ∃ value, b.get? name = some value ∧ (value == presumed) = true

theorem get?_beq_some {o : Option Float} {presumed : Float} :
    (o == some presumed) = true ↔ ∃ value, o = some value ∧ (value == presumed) = true := by
  cases o with
  | none => simp
  | some value => simp

theorem Relation.usable_iff {r : Relation} {b : Bindings} :
    r.isApplicable b = true ↔ r.Usable b := by
  rw [Relation.isApplicable_iff, Bindings.contains_eq_false_iff]
  simp only [Bindings.contains_iff, get?_beq_some, Prod.forall]
  exact Iff.rfl

/-! ## What the policy prescribes -/

/-- The step that the policy prescribes at some values. -/
inductive Prescribed (imports : List Catalog) (assuming : Bool) (b : Bindings) : Step → Prop
  /-- The first relation that can be used, with its texts, its output and its formula. -/
  | use (catalog : String) (relation : Relation) (s : Solved) :
    IsFirst (·.2.Usable b) (relationsOf imports) (catalog, relation) →
      s.title = relation.title → s.description = relation.description →
        s.unknown = relation.gives → s.equation = relation.formula →
          Prescribed imports assuming b (.solved s)
  /-- The first default of a name without a value, if no relation can be used. The
  first edit fixes the value assumed, the second turns assumptions off. -/
  | assume (name : String) (value : Float) (h : Hint) :
    (∀ r ∈ relationsOf imports, ¬ r.2.Usable b) → assuming = true →
      IsFirst (fun i => b.get? i.1 = none) (implicitsOf imports) (name, value) →
        h.message = name ++ " is implicitly " ++ Number.text value →
          h.buttons =
              [{ text := "Make explicit", set := .ofList [(name, value)], primary := true },
                { text := "Disable implicit variables", hints := [noImplicit] }] →
            Prescribed imports assuming b (.hint h)
  /-- The summary of the values, if no relation can be used and nothing is to be assumed. -/
  | finish : (∀ r ∈ relationsOf imports, ¬ r.2.Usable b) →
    (assuming = true → ∀ i ∈ implicitsOf imports, ∃ value, b.get? i.1 = some value) →
      Prescribed imports assuming b (.summary b)

variable {imports : List Catalog} {assuming : Bool} {b : Bindings}

theorem nextRelation?_eq_none_iff :
    nextRelation? imports b = none ↔ ∀ r ∈ relationsOf imports, ¬ r.2.Usable b := by
  unfold nextRelation?
  rw [Option.map_eq_none_iff, List.find?_eq_none]
  simp only [Relation.usable_iff]

theorem nextImplicit?_eq_none_iff : nextImplicit? imports b = none ↔
    ∀ i ∈ implicitsOf imports, ∃ value, b.get? i.1 = some value := by
  unfold nextImplicit?
  rw [Option.map_eq_none_iff, List.find?_eq_none]
  simp only [Bool.not_eq_true', Bool.not_eq_false, Bindings.contains_iff]

/-- There is no move exactly if no relation can be used and nothing is to be assumed. -/
theorem nextMove?_eq_none_iff : nextMove? imports assuming b = none ↔
    (∀ r ∈ relationsOf imports, ¬ r.2.Usable b) ∧
      (assuming = true → ∀ i ∈ implicitsOf imports, ∃ value, b.get? i.1 = some value) := by
  unfold nextMove?
  rw [Option.or_eq_none_iff, nextRelation?_eq_none_iff, ← nextImplicit?_eq_none_iff]
  cases assuming <;> simp

/-- **What the next move leaves is prescribed.** -/
theorem prescribed_of_perform {m : Move} {step : Step} {value : Float}
    (hnext : nextMove? imports assuming b = some m) (hperform : m.perform b = .ok (step, value)) :
    Prescribed imports assuming b step := by
  rcases Option.or_eq_some_iff.1 hnext with hnext | ⟨hnone, hnext⟩
  · obtain ⟨⟨catalog, relation⟩, hfind, rfl⟩ := Option.map_eq_some_iff.1 hnext
    have hfirst := isFirst_of_find? (fun r : String × Relation => Relation.usable_iff) hfind
    rcases Move.perform_eq_ok hperform with ⟨_, _, s, heq, hsolve, rfl, -⟩ | ⟨_, heq, -⟩
    · cases heq
      obtain ⟨substituted, x, -, -, rfl⟩ := Move.solve_eq_ok_iff.1 hsolve
      exact .use catalog relation _ hfirst rfl rfl rfl rfl
    · cases heq
  · cases assuming with
    | false => cases hnext
    | true =>
      obtain ⟨⟨name, x⟩, hfind, rfl⟩ := Option.map_eq_some_iff.1 hnext
      have htest : ∀ i : String × Float, (!b.contains i.1) = true ↔ b.get? i.1 = none := by
        intro i
        rw [Bool.not_eq_true', Bindings.contains_eq_false_iff]
      rcases Move.perform_eq_ok hperform with ⟨_, _, _, heq, -⟩ | ⟨_, heq, rfl⟩
      · cases heq
      · cases heq
        exact .assume name x _ (nextRelation?_eq_none_iff.1 hnone) rfl
          (isFirst_of_find? htest hfind) rfl rfl

theorem prescribed_summary (h : nextMove? imports assuming b = none) :
    Prescribed imports assuming b (.summary b) := by
  obtain ⟨hrelations, himplicits⟩ := nextMove?_eq_none_iff.1 h
  exact .finish hrelations himplicits

/-! ## Every step of a run -/

/-- A run passes through the values at which each of its moves is made. -/
theorem Run.split {final : Bindings} {before after : List Step} {step : Step}
    (h : Run imports assuming b (before ++ step :: after) final) :
    ∃ held m value, Run imports assuming b before held ∧ nextMove? imports assuming held = some m ∧
      m.perform held = .ok (step, value) := by
  obtain ⟨held, hbefore, hrest⟩ := h.of_append
  cases hrest with
  | move hnext hperform _ => exact ⟨held, _, _, hbefore, hnext, hperform⟩

/-- Whether a step is a solved step, an assumption or a summary. The other steps are
remarks, which the policy does not concern. -/
def Step.isProgress (step : Step) : Bool := step.bound?.isSome || step.summary?.isSome

theorem isProgress_of_mem_remarks {reading : Session.Reading} {step : Step}
    (h : step ∈ remarks imports reading) : step.isProgress = false := by
  unfold Step.isProgress
  rw [bound?_of_mem_remarks h, Option.isSome_none, Bool.false_or, Option.isSome_eq_false_iff,
    Option.isNone_iff_eq_none]
  cases hsummary : step.summary? with
  | none => rfl
  | some values =>
    rw [Step.summary?_eq_some hsummary] at h
    rcases List.mem_append.1 h with h | h
    · rcases List.mem_append.1 h with h | h
      · obtain ⟨fault, -, heq⟩ := List.mem_map.1 h
        cases heq
      · exact absurd h summary_not_mem_unknownHintSteps
    · exact absurd h summary_not_mem_warningSteps

/-- Behind items that a place is not among, the place is in what follows them. -/
theorem append_eq_append_cons {α : Type} {front back before after : List α} {a : α}
    (h : front ++ back = before ++ a :: after) (ha : a ∉ front) :
    ∃ mid, before = front ++ mid ∧ back = mid ++ a :: after := by
  rcases List.append_eq_append_iff.1 h with ⟨mid, hbefore, hback⟩ | ⟨mid, hfront, hafter⟩
  · exact ⟨mid, hbefore, hback⟩
  · cases mid with
    | nil => exact ⟨[], by simpa using hfront.symm, by simpa using hafter.symm⟩
    | cons x mid =>
      obtain ⟨rfl, -⟩ := List.cons.inj hafter
      exact absurd (hfront ▸ List.mem_append_right _ List.mem_cons_self) ha

/-- Before items that a place is not among, the place is in what comes before them. -/
theorem append_eq_append_cons_left {α : Type} {front back before after : List α} {a : α}
    (h : front ++ back = before ++ a :: after) (ha : a ∉ back) :
    ∃ mid, front = before ++ a :: mid ∧ after = mid ++ back := by
  rcases List.append_eq_append_iff.1 h with ⟨mid, hbefore, hback⟩ | ⟨mid, hfront, hafter⟩
  · exact absurd (hback ▸ List.mem_append_right _ List.mem_cons_self) ha
  · cases mid with
    | nil =>
      have hback : a :: after = back := hafter
      exact absurd (hback ▸ List.mem_cons_self) ha
    | cons x mid =>
      obtain ⟨rfl, rfl⟩ := List.cons.inj hafter
      exact ⟨mid, hfront, rfl⟩

namespace Registry

variable {r : Registry} {line : String} {steps before after : List Step} {step : Step}

/-- The catalogs that a session imports, in the order of import. -/
def importsOf (r : Registry) (s : Session) : List Catalog := s.libraries.filterMap r.get?

theorem importsOf_eq {s : Session} (h : r.resolve s.libraries = .ok imports) :
    r.importsOf s = imports := by
  have hmap := congrArg (List.filterMap id) (resolve_eq_ok_iff.1 h)
  rw [List.filterMap_map, List.filterMap_map] at hmap
  exact hmap.trans (List.filterMap_some ..)

/-- A trace with a step that is no remark ends in a summary. -/
theorem exists_summary (h : r.solve line = .ok steps) (hstep : step ∈ steps)
    (hprogress : step.isProgress = true) : ∃ final, .summary final ∈ steps := by
  have hunknown : ∀ imports hints, ∀ s ∈ unknownHintSteps imports hints, s.isProgress = false := by
    intro imports hints s hs
    obtain ⟨hint, -, rfl⟩ := List.mem_map.1 hs
    rfl
  obtain ⟨steps', hsession, rfl⟩ := map_eq_ok.1 h
  rcases List.mem_append.1 hstep with hmem | hmem
  · obtain ⟨fault, -, rfl⟩ := List.mem_map.1 hmem
    cases hprogress
  · unfold solveSession at hsession
    split at hsession
    · cases hsession
      rw [List.mem_singleton.1 hmem] at hprogress
      cases hprogress
    · cases hsession
      rcases List.mem_append.1 hmem with hmem | hmem
      · rw [hunknown _ _ _ hmem] at hprogress
        cases hprogress
      · rw [List.mem_singleton.1 hmem] at hprogress
        cases hprogress
    · obtain ⟨⟨moves, final⟩, -, rfl⟩ := map_eq_ok.1 hsession
      exact ⟨final, by simp⟩

/-- Whether a line is solved with a summary, by running the solver. -/
def ends (r : Registry) (line : String) : Bool :=
  ((r.solve line).toOption.bind (·.findSome? Step.summary?)).isSome

theorem exists_steps_of_ends (h : r.ends line = true) :
    ∃ steps final, r.solve line = .ok steps ∧ .summary final ∈ steps := by
  unfold ends at h
  cases hsolve : r.solve line with
  | error fault =>
    rw [hsolve] at h
    cases h
  | ok steps =>
    rw [hsolve] at h
    obtain ⟨final, hfinal⟩ := Option.isSome_iff_exists.1 h
    obtain ⟨step, hmem, hstep⟩ := List.exists_of_findSome?_eq_some hfinal
    rw [Step.summary?_eq_some hstep] at hmem
    exact ⟨steps, final, rfl, hmem⟩

/-- Whether a line is solved with a step that passes a test at some place of the trace,
by running the solver. -/
def shows (r : Registry) (line : String) (place : Nat) (test : Step → Bool) : Bool :=
  ((r.solve line).toOption.bind (·[place]?)).any test

theorem exists_split_of_shows {place : Nat} {test : Step → Bool}
    (h : r.shows line place test = true) :
    ∃ steps before step after, r.solve line = .ok steps ∧ steps = before ++ step :: after ∧
      before.length = place ∧ test step = true := by
  unfold shows at h
  cases hsolve : r.solve line with
  | error fault =>
    rw [hsolve] at h
    cases h
  | ok steps =>
    rw [hsolve] at h
    obtain ⟨step, hstep, htest⟩ := (Option.any_eq_true ..).1 h
    obtain ⟨hlt, hget⟩ := List.getElem?_eq_some_iff.1 hstep
    refine ⟨steps, steps.take place, step, steps.drop (place + 1), rfl, ?_, ?_, htest⟩
    · rw [← hget, ← List.drop_eq_getElem_cons hlt, List.take_append_drop]
    · rw [List.length_take, Nat.min_eq_left (Nat.le_of_lt hlt)]

/-- **Every step of a trace is the one that the policy prescribes** at the values that
the trace has reached there, remarks apart. -/
theorem solve_prescribed (h : r.solve line = .ok steps) (hsplit : steps = before ++ step :: after)
    (hprogress : step.isProgress = true) :
    ∃ held, replay (Session.read line).session.values before = some held ∧
      Prescribed (r.importsOf (Session.read line).session)
        (!(Session.read line).session.hasHint noImplicit) held step := by
  have hstep : step ∈ steps := hsplit ▸ List.mem_append_right _ List.mem_cons_self
  obtain ⟨final, hsummary⟩ := exists_summary h hstep hprogress
  obtain ⟨imports, moves, hresolve, -, hrun, hend, htrace⟩ := solve_summary h hsummary
  rw [importsOf_eq hresolve]
  -- The step stands behind the remarks, which replay to the values of the line.
  have hremark : step ∉ remarks imports (Session.read line) := by
    intro hmem
    rw [isProgress_of_mem_remarks hmem] at hprogress
    cases hprogress
  rw [hsplit, List.append_assoc] at htrace
  obtain ⟨mid, rfl, hmid⟩ := append_eq_append_cons htrace.symm hremark
  have hreplay : ∀ held, Run imports (!(Session.read line).session.hasHint noImplicit)
      (Session.read line).session.values mid held →
      replay (Session.read line).session.values (remarks imports (Session.read line) ++ mid) =
        some held := by
    intro held hheld
    rw [replay_append, replay_of_forall_bound?_eq_none fun _ => bound?_of_mem_remarks]
    exact hheld.replay_eq
  rcases List.append_eq_append_iff.1 hmid with ⟨rest, rfl, hrest⟩ | ⟨rest, rfl, hrest⟩
  · -- It is the summary, behind all moves.
    have hlast : rest = [] ∧ step = .summary final := by
      cases rest with
      | nil => exact ⟨rfl, (List.cons.inj hrest).1.symm⟩
      | cons x rest => cases rest <;> cases hrest
    obtain ⟨rfl, rfl⟩ := hlast
    rw [List.append_nil] at hreplay ⊢
    exact ⟨final, hreplay final hrun, prescribed_summary hend⟩
  · cases rest with
    | nil =>
      obtain ⟨rfl, -⟩ := List.cons.inj hrest
      rw [List.append_nil] at hrun
      exact ⟨final, hreplay final hrun, prescribed_summary hend⟩
    | cons x rest =>
      -- It is a move, made at the values that the moves before it lead to.
      obtain ⟨rfl, -⟩ := List.cons.inj hrest
      obtain ⟨held, m, value, hheld, hnext, hperform⟩ := hrun.split
      exact ⟨held, hreplay held hheld, prescribed_of_perform hnext hperform⟩

/-- A step behind an assumption, on a line that binds nothing itself. -/
theorem solve_prescribed_unitCircle : ∃ steps before step after held,
    builtin.solve "!unit-circle" = .ok steps ∧ steps = before ++ step :: after ∧
      step.isProgress = true ∧
      replay (Session.read "!unit-circle").session.values before = some held ∧
      Prescribed (builtin.importsOf (Session.read "!unit-circle").session)
        (!(Session.read "!unit-circle").session.hasHint noImplicit) held step := by
  have hsecond : ((builtin.solve "!unit-circle").toOption.bind (·[1]?)).any Step.isProgress =
      true := by decide +kernel
  cases hsolve : builtin.solve "!unit-circle" with
  | error fault =>
    rw [hsolve] at hsecond
    cases hsecond
  | ok steps =>
    rw [hsolve] at hsecond
    obtain ⟨step, hstep, hprogress⟩ := (Option.any_eq_true ..).1 hsecond
    obtain ⟨hlt, hget⟩ := List.getElem?_eq_some_iff.1 hstep
    have hsplit : steps = steps.take 1 ++ step :: steps.drop 2 := by
      rw [← hget, ← List.drop_eq_getElem_cons hlt, List.take_append_drop]
    obtain ⟨held, hreplay, hprescribed⟩ := solve_prescribed hsolve hsplit hprogress
    exact ⟨steps, _, step, _, held, rfl, hsplit, hprogress, hreplay, hprescribed⟩

/-- Whether an assumption of zero for `a` has an edit that turns assumptions off and
does nothing else. -/
def disablesOnly (h : Hint) : Bool :=
  decide (h.assumed? = some ("a", 0.0)) && h.buttons.any fun button =>
    decide (button.text = "Disable implicit variables" ∧ button.set.entries = [] ∧
      button.libraries = [] ∧ button.hints = [noImplicit])

/-- **The edit that turns assumptions off sets no value**, so not every edit of an
assumption refers to the name and the value assumed. -/
theorem disable_setsNothing : ∃ steps hint, builtin.solve "!unit-circle" = .ok steps ∧
    .hint hint ∈ steps ∧ hint.assumed? = some ("a", 0.0) ∧
      (∃ button ∈ hint.buttons, button.text = "Disable implicit variables" ∧
        button.set.entries = [] ∧ button.libraries = [] ∧ button.hints = [noImplicit]) ∧
      ¬ ∀ button ∈ hint.buttons, button.set.get? "a" = some 0.0 := by
  have hfirst : ((builtin.solve "!unit-circle").toOption.bind
      (·.findSome? Step.hint?)).any disablesOnly = true := by decide +kernel
  cases hsolve : builtin.solve "!unit-circle" with
  | error fault =>
    rw [hsolve] at hfirst
    cases hfirst
  | ok steps =>
    rw [hsolve] at hfirst
    obtain ⟨hint, hfind, hdisables⟩ := (Option.any_eq_true ..).1 hfirst
    obtain ⟨step, hmem, hstep⟩ := List.exists_of_findSome?_eq_some hfind
    obtain ⟨hassumed, hany⟩ := Bool.and_eq_true_iff.1 hdisables
    obtain ⟨button, hbutton, hfields⟩ := List.any_eq_true.1 hany
    have hfields := of_decide_eq_true hfields
    have hhint : step = .hint hint := by
      cases step <;> cases hstep
      rfl
    refine ⟨steps, hint, rfl, hhint ▸ hmem, of_decide_eq_true hassumed,
      ⟨button, hbutton, hfields⟩, fun hall => ?_⟩
    have hget : button.set.entries.lookup "a" = some 0.0 := hall button hbutton
    rw [hfields.2.1] at hget
    cases hget

end Registry

end Stepwise
