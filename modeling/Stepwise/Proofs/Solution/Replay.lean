import Stepwise.Catalog.Builtin
import Stepwise.Proofs.Solution.Trace

/-!
# Traces replayed

A trace tells where every value comes from: a solved step binds what it found, an
assumption what it assumed, and no other step binds anything. `replay` reads a
trace in this way and stops at a step that binds a name for the second time:

> `Run.replay_eq`: what a run leaves replays to the values at its end.

So each name has one origin (`replay_origins`), and a value that was seen once is
the value at the end (`replay_keeps`, `replay_bound`).
-/

namespace Stepwise

/-! ## What a step binds -/

/-- The name and the value that a hint assumes. An assumption is told from other
hints by its second edit, which turns assumptions off; its first edit sets the value. -/
def Hint.assumed? (h : Hint) : Option (String × Float) :=
  match h.buttons with
  | [confirm, disable] => if disable.hints = [noImplicit] then confirm.set.entries.head? else none
  | _ => none

namespace Step

/-- The name and the value that a step binds. -/
def bound? : Step → Option (String × Float)
  | .solved s => some (s.unknown.name, s.result)
  | .hint h => h.assumed?
  | _ => none

/-- Whether a step derives the value of a name. -/
def derives (name : String) : Step → Bool
  | .solved s => s.unknown.name == name
  | _ => false

/-- Whether a step assumes the value of a name. -/
def assumes (name : String) : Step → Bool
  | .hint h => h.assumed?.any (·.1 == name)
  | _ => false

end Step

theorem assumed?_assumption (name : String) (value : Float) :
    (Move.assumption name value).assumed? = some (name, value) := rfl

/-- A warning ends with the edit that silences it, which is never the one that
turns assumptions off. -/
theorem assumed?_warning (w : Warning) (advice : Advice) : (w.hint advice).assumed? = none := by
  unfold Hint.assumed? Warning.hint
  dsimp only
  split
  · next confirm disable hbuttons =>
    rw [if_neg]
    intro hhints
    have hends : advice.actions ++ [Button.activating "Ignore this warning" w.bypass] =
        [confirm] ++ [disable] := hbuttons
    obtain ⟨-, hlast⟩ := List.append_inj' hends rfl
    rw [← List.singleton_inj.1 hlast] at hhints
    have hchars := congrArg String.toList (List.singleton_inj.1 hhints)
    unfold Warning.bypass at hchars
    rw [String.toList_append] at hchars
    exact absurd (List.cons.inj hchars).1 (by decide)
  · rfl

/-- Remarks bind nothing. -/
theorem bound?_of_mem_remarks {imports : List Catalog} {reading : Session.Reading} {step : Step}
    (h : step ∈ remarks imports reading) : step.bound? = none := by
  rcases List.mem_append.1 h with h | h
  · rcases List.mem_append.1 h with h | h
    · obtain ⟨fault, -, rfl⟩ := List.mem_map.1 h
      rfl
    · obtain ⟨hint, -, rfl⟩ := List.mem_map.1 h
      rfl
  · obtain ⟨w, -, heq⟩ := List.mem_filterMap.1 h
    split at heq
    · cases heq
    · obtain ⟨advice, -, rfl⟩ := Option.map_eq_some_iff.1 heq
      exact assumed?_warning w advice

/-- A move binds its target, and its step says so. -/
theorem Move.bound?_of_perform {m : Move} {b : Bindings} {step : Step} {value : Float}
    (h : m.perform b = .ok (step, value)) : step.bound? = some (m.target, value) := by
  rcases Move.perform_eq_ok h with ⟨catalog, relation, s, rfl, hsolve, rfl, rfl⟩ | ⟨name, rfl, rfl⟩
  · obtain ⟨substituted, x, -, -, rfl⟩ := Move.solve_eq_ok_iff.1 hsolve
    rfl
  · exact assumed?_assumption name value

/-- A step that binds a name derives or assumes that one, and no other. -/
theorem derives_add_assumes {step : Step} {n : String} {v : Float}
    (h : step.bound? = some (n, v)) (name : String) :
    (step.derives name).toNat + (step.assumes name).toNat = (name == n).toNat := by
  cases step with
  | solved s =>
    obtain ⟨rfl, rfl⟩ := Prod.mk.inj (Option.some.inj h)
    show (s.unknown.name == name).toNat + 0 = _
    rw [Nat.add_zero, BEq.comm]
  | hint hint =>
    have h : hint.assumed? = some (n, v) := h
    show 0 + (hint.assumed?.any (·.1 == name)).toNat = _
    rw [h, Nat.zero_add, Option.any_some, BEq.comm]
  | error message => cases h
  | summary values => cases h

theorem derives_of_bound?_eq_none {step : Step} (h : step.bound? = none) (name : String) :
    step.derives name = false ∧ step.assumes name = false := by
  cases step with
  | solved s => cases h
  | hint hint =>
    have h : hint.assumed? = none := h
    refine ⟨rfl, ?_⟩
    show hint.assumed?.any (·.1 == name) = false
    rw [h, Option.any_none]
  | error message => exact ⟨rfl, rfl⟩
  | summary values => exact ⟨rfl, rfl⟩

/-! ## Replay -/

/-- The values after the steps of a trace, if no step binds a name that is bound. -/
def replay (b : Bindings) : List Step → Option Bindings
  | [] => some b
  | step :: steps =>
    match step.bound? with
    | none => replay b steps
    | some (name, value) => if b.contains name then none else replay (b.insert name value) steps

/-- To replay a step is to skip it, or to bind a fresh name. -/
theorem replay_cons_eq_some {b final : Bindings} {step : Step} {steps : List Step}
    (h : replay b (step :: steps) = some final) :
    (step.bound? = none ∧ replay b steps = some final) ∨
    (∃ name value, step.bound? = some (name, value) ∧ b.contains name = false ∧
      replay (b.insert name value) steps = some final) := by
  unfold replay at h
  split at h
  · next hnone => exact .inl ⟨hnone, h⟩
  · next name value hbound =>
    split at h
    · cases h
    · next hfresh => exact .inr ⟨name, value, hbound, Bool.not_eq_true _ ▸ hfresh, h⟩

theorem replay_append (b : Bindings) (before after : List Step) :
    replay b (before ++ after) = (replay b before).bind (replay · after) := by
  induction before generalizing b with
  | nil => rfl
  | cons step before ih =>
    rw [List.cons_append, replay, replay]
    split
    · exact ih b
    · split
      · rfl
      · exact ih _

/-- Steps that bind nothing replay to what was there. -/
theorem replay_of_forall_bound?_eq_none {steps : List Step} (h : ∀ step ∈ steps, step.bound? = none)
    (b : Bindings) : replay b steps = some b := by
  induction steps with
  | nil => rfl
  | cons step steps ih =>
    obtain ⟨hhead, htail⟩ := List.forall_mem_cons.1 h
    rw [replay, hhead]
    exact ih htail

/-- **What a run leaves replays to the values at its end.** -/
theorem Run.replay_eq {imports : List Catalog} {assuming : Bool} {b final : Bindings}
    {steps : List Step} (h : Run imports assuming b steps final) : replay b steps = some final := by
  induction h with
  | stay b => rfl
  | move hnext hperform _ ih =>
    rw [replay, Move.bound?_of_perform hperform]
    dsimp only
    rw [contains_target hnext]
    exact ih

/-! ## What replaying preserves -/

section Preserved

variable {b final : Bindings} {steps : List Step}

/-- **A value stays.** -/
theorem replay_keeps (h : replay b steps = some final) {name : String} {value : Float}
    (hvalue : b.get? name = some value) : final.get? name = some value := by
  induction steps generalizing b with
  | nil =>
    cases h
    exact hvalue
  | cons step steps ih =>
    rcases replay_cons_eq_some h with ⟨-, h⟩ | ⟨n, v, -, hfresh, h⟩
    · exact ih h hvalue
    · refine ih h ?_
      -- The name that the step binds was unbound, so it is another one.
      have hne : name ≠ n := by
        rintro rfl
        rw [Bindings.contains_eq_false_iff, hvalue] at hfresh
        cases hfresh
      rw [Bindings.get?_insert, if_neg hne]
      exact hvalue

/-- What a step binds is bound at the end. -/
theorem replay_bound (h : replay b steps = some final) {step : Step} (hstep : step ∈ steps)
    {name : String} {value : Float} (hbound : step.bound? = some (name, value)) :
    final.get? name = some value := by
  induction steps generalizing b with
  | nil => cases hstep
  | cons first steps ih =>
    rcases replay_cons_eq_some h with ⟨hnone, h⟩ | ⟨n, v, hfirst, -, h⟩
    · rcases List.mem_cons.1 hstep with rfl | hstep
      · rw [hnone] at hbound
        cases hbound
      · exact ih h hstep
    · rcases List.mem_cons.1 hstep with rfl | hstep
      · rw [hfirst] at hbound
        cases hbound
        refine replay_keeps h ?_
        rw [Bindings.get?_insert, if_pos rfl]
      · exact ih h hstep

/-- **Every name has one origin**: it was there, or one step derived it, or one step
assumed it. -/
theorem replay_origins (h : replay b steps = some final) (name : String) :
    (b.contains name).toNat + steps.countP (·.derives name) + steps.countP (·.assumes name) =
      (final.contains name).toNat := by
  induction steps generalizing b with
  | nil =>
    cases h
    rfl
  | cons step steps ih =>
    have hcount : ∀ p : Step → Bool,
        (step :: steps).countP p = steps.countP p + (p step).toNat := by
      intro p
      rw [List.countP_cons]
      cases p step <;> rfl
    rw [hcount, hcount]
    rcases replay_cons_eq_some h with ⟨hnone, h⟩ | ⟨n, v, hbound, hfresh, h⟩
    · obtain ⟨hderives, hassumes⟩ := derives_of_bound?_eq_none hnone name
      rw [hderives, hassumes]
      exact ih h
    · -- The step counts for the name that it binds, which was not there before.
      have hone := derives_add_assumes hbound name
      have hrest := ih h
      rw [Bindings.contains_insert] at hrest
      by_cases hname : name = n
      · subst hname
        rw [hfresh]
        simp only [beq_self_eq_true, Bool.true_or, Bool.toNat_true, Bool.toNat_false]
          at hone hrest ⊢
        omega
      · simp only [beq_false_of_ne hname, Bool.false_or, Bool.toNat_false] at hone hrest
        omega

end Preserved

/-- The inputs that a solved step shows have the values that they have at the end. -/
theorem Run.get?_given {imports : List Catalog} {assuming : Bool} {b final : Bindings}
    {steps : List Step} (h : Run imports assuming b steps final) {s : Solved}
    (hs : .solved s ∈ steps) {g : Given} (hg : g ∈ s.given) :
    final.get? g.quantity.name = some g.value := by
  induction h with
  | stay b => cases hs
  | move hnext hperform hrun ih =>
    rcases List.mem_cons.1 hs with rfl | hs
    · -- The inputs were looked up before the move, and the whole run keeps them.
      have hall := (Run.move hnext hperform hrun).replay_eq
      rcases Move.perform_eq_ok hperform with ⟨_, _, s', _, hsolve, hstep, _⟩ | ⟨_, _, hstep⟩
      · cases hstep
        obtain ⟨substituted, x, -, -, rfl⟩ := Move.solve_eq_ok_iff.1 hsolve
        obtain ⟨q, -, hq⟩ := List.mem_filterMap.1 hg
        obtain ⟨value, hvalue, rfl⟩ := Option.map_eq_some_iff.1 hq
        exact replay_keeps hall hvalue
      · cases hstep
    · exact ih hs

/-! ## Session lines -/

namespace Registry

/-- **A trace accounts for its summary**: replayed from the values of the line it
binds fresh names only and ends in the summary. So no value of the line changes,
every name has one origin, and what solved steps show is in the summary. -/
theorem solve_accounted {r : Registry} {line : String} {steps : List Step} {final : Bindings}
    (h : r.solve line = .ok steps) (hsummary : .summary final ∈ steps) :
    replay (Session.read line).session.values steps = some final ∧
    (∀ name value, (Session.read line).session.values.get? name = some value →
      final.get? name = some value) ∧
    (∀ name, ((Session.read line).session.values.contains name).toNat +
        steps.countP (·.derives name) + steps.countP (·.assumes name) =
      (final.contains name).toNat) ∧
    ∀ s, .solved s ∈ steps → final.get? s.unknown.name = some s.result ∧
      ∀ g ∈ s.given, final.get? g.quantity.name = some g.value := by
  -- The trace is remarks, moves and the summary, and only the moves bind.
  obtain ⟨imports, moves, -, -, hrun, -, rfl⟩ := solve_summary h hsummary
  have hreplay : replay (Session.read line).session.values
      (remarks imports (Session.read line) ++ moves ++ [.summary final]) = some final := by
    rw [replay_append, replay_append,
      replay_of_forall_bound?_eq_none fun _ => bound?_of_mem_remarks, Option.bind_some,
      hrun.replay_eq]
    rfl
  have hsolved : ∀ s, .solved s ∈ remarks imports (Session.read line) ++ moves ++ [.summary final] →
      .solved s ∈ moves := by
    intro s hs
    rcases List.mem_append.1 hs with hs | hs
    · rcases List.mem_append.1 hs with hs | hs
      · cases bound?_of_mem_remarks hs
      · exact hs
    · cases List.mem_singleton.1 hs
  refine ⟨hreplay, fun _ _ => replay_keeps hreplay, replay_origins hreplay, ?_⟩
  intro s hs
  exact ⟨replay_bound hreplay hs rfl, fun g hg => hrun.get?_given (hsolved s hs) hg⟩

/-- A line whose trace has relations that compete for a name, and an assumed value. -/
theorem solve_accounted_slopes : ∃ steps final,
    builtin.solve "!slopes Dx=3 Dy=4 xi=1" = .ok steps ∧ .summary final ∈ steps ∧
      replay (Session.read "!slopes Dx=3 Dy=4 xi=1").session.values steps = some final := by
  have hends : ((builtin.solve "!slopes Dx=3 Dy=4 xi=1").toOption.bind
      (·.findSome? Step.summary?)).isSome = true := by decide +kernel
  cases hsolve : builtin.solve "!slopes Dx=3 Dy=4 xi=1" with
  | error fault =>
    rw [hsolve] at hends
    cases hends
  | ok steps =>
    rw [hsolve] at hends
    obtain ⟨final, hfinal⟩ := Option.isSome_iff_exists.1 hends
    obtain ⟨step, hmem, hstep⟩ := List.exists_of_findSome?_eq_some hfinal
    have hsummary : .summary final ∈ steps := by rwa [Step.summary?_eq_some hstep] at hmem
    exact ⟨steps, final, rfl, hsummary, (solve_accounted hsolve hsummary).1⟩

end Registry

end Stepwise
