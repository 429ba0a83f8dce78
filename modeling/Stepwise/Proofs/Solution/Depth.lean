import Stepwise.Proofs.Expr.Environment
import Stepwise.Proofs.Solution.Check
import Stepwise.Proofs.Solution.Json

/-!
# How deep a solution is nested

A text of unknown shape is not read where it is nested too deep. A solution of the
catalogs that come with the solver is not:

> `Registry.depth_listToJson`: the steps of a line are nested no deeper than a text of
> unknown shape may be.

All that may be nested in a step is its formula. To fill in values puts leaves in the
place of leaves, so the formula with the values is nested as deep as the formula of the
relation (`Expr.Filled.depth_toJson`), and those are known.
-/

namespace Stepwise

/-! ## Formulas -/

theorem depthOfMembers_unitMember (unit : Option String) :
    Json.depthOfMembers (unitMember unit) = 0 := by
  cases unit with
  | none => rfl
  | some unit => rfl

theorem Quantity.depth_toJson (q : Quantity) : q.toJson.depth = 1 := by
  show max 0 (Json.depthOfMembers (unitMember q.unit)) + 1 = 1
  rw [depthOfMembers_unitMember]
  rfl

namespace Expr

variable {b : Bindings}

theorem depth_toJson_literal (value : Float) (unit : Option String) :
    (Expr.literal value unit).toJson.depth = 1 := by
  show max 0 (max (Json.ofFloat value).depth (Json.depthOfMembers (unitMember unit))) + 1 = 1
  rw [Json.depth_ofFloat, depthOfMembers_unitMember]
  rfl

theorem depth_toJson_variable (q : Quantity) : (Expr.variable q).toJson.depth = 1 := by
  show max 0 (max 0 (Json.depthOfMembers (unitMember q.unit))) + 1 = 1
  rw [depthOfMembers_unitMember]
  rfl

theorem depthOfItems_filled {es es' : List Expr}
    (ih : ∀ e ∈ es, ∀ e', Filled b e e' → e'.toJson.depth = e.toJson.depth)
    (h : List.Forall₂ (Filled b) es es') :
    Json.depthOfItems (toJsons es') = Json.depthOfItems (toJsons es) := by
  induction h with
  | nil => rfl
  | @cons e e' es es' he hes ihes =>
    obtain ⟨hhead, htail⟩ := List.forall_mem_cons.1 ih
    rw [toJsons, toJsons, Json.depthOfItems, Json.depthOfItems, hhead e' he, ihes htail]

/-- **To fill in values nests a formula no deeper.** -/
theorem Filled.depth_toJson {e e' : Expr} (h : Filled b e e') :
    e'.toJson.depth = e.toJson.depth := by
  induction e generalizing e' with
  | literal value unit =>
    cases h
    rfl
  | quantity q =>
    cases h with
    | quantity hvalue => rw [depth_toJson_literal, depth_toJson_variable]
  | sum terms ih =>
    cases h with
    | sum hterms =>
      have hdepth := depthOfItems_filled (fun e he e' => ih e he) hterms
      simp only [toJson, Json.depth, Json.depthOfMembers, hdepth]
  | product factors ih =>
    cases h with
    | product hfactors =>
      have hdepth := depthOfItems_filled (fun e he e' => ih e he) hfactors
      simp only [toJson, Json.depth, Json.depthOfMembers, hdepth]
  | difference left right ihl ihr =>
    cases h with
    | difference hleft hright =>
      simp only [toJson, Json.depth, Json.depthOfMembers, ihl hleft, ihr hright]
  | quotient left right ihl ihr =>
    cases h with
    | quotient hleft hright =>
      simp only [toJson, Json.depth, Json.depthOfMembers, ihl hleft, ihr hright]
  | sqrt operand ih =>
    cases h with
    | sqrt hoperand => simp only [toJson, Json.depth, Json.depthOfMembers, ih hoperand]
  | power base exponent ih =>
    cases h with
    | power _ hbase => simp only [toJson, Json.depth, Json.depthOfMembers, ih hbase]
  | group inner ih =>
    cases h with
    | group hinner => simp only [toJson, Json.depth, Json.depthOfMembers, ih hinner]
  | call function argument ih =>
    cases h with
    | call _ hargument => simp only [toJson, Json.depth, Json.depthOfMembers, ih hargument]

end Expr

/-! ## Steps -/

theorem Given.depth_toJson (g : Given) : g.toJson.depth = 2 := by
  rw [toJson, Json.depth, Json.depthOfMembers, Json.depthOfMembers, Quantity.depth_toJson,
    Json.depth_ofFloat]
  rfl

namespace Step

/-- The formulas of a step. -/
def formulas : Step → List Expr
  | .solved s => [s.equation, s.substituted]
  | .error _ | .hint _ | .summary _ => []

/-- All that may be nested deep in a step is its formulas. -/
theorem depth_toJson {s : Step} {depth : Nat} (hdepth : 3 ≤ depth)
    (hformulas : ∀ e ∈ s.formulas, e.toJson.depth ≤ depth) : s.toJson.depth ≤ depth + 1 := by
  cases s with
  | error message => exact Nat.succ_le_succ (Nat.zero_le depth)
  | solved s =>
    obtain ⟨hequation, hrest⟩ := List.forall_mem_cons.1 hformulas
    have hgiven : (Json.array (s.given.map Given.toJson)).depth ≤ 3 := by
      refine Nat.succ_le_succ (Json.depthOfItems_le fun item hitem => ?_)
      obtain ⟨g, -, rfl⟩ := List.mem_map.1 hitem
      exact Nat.le_of_eq g.depth_toJson
    refine Nat.succ_le_succ (Json.depthOfMembers_le ?_)
    simp only [List.forall_mem_cons]
    refine ⟨Nat.zero_le _, Nat.zero_le _, Nat.zero_le _, Nat.le_trans hgiven hdepth, ?_,
      hequation, ?_, hrest _ List.mem_cons_self, List.forall_mem_nil _⟩
    · rw [Quantity.depth_toJson]
      omega
    · rw [Json.depth_ofFloat]
      exact Nat.zero_le _
  | hint h =>
    have hbuttons : (Json.array (h.buttons.map Button.toJson)).depth ≤ 3 := by
      refine Nat.succ_le_succ (Json.depthOfItems_le fun item hitem => ?_)
      obtain ⟨b, -, rfl⟩ := List.mem_map.1 hitem
      exact b.depth_toJson
    refine Nat.succ_le_succ (Json.depthOfMembers_le ?_)
    simp only [List.forall_mem_cons]
    exact ⟨Nat.zero_le _, Nat.zero_le _, Nat.le_trans hbuttons hdepth, List.forall_mem_nil _⟩
  | summary values =>
    refine Nat.succ_le_succ (Json.depthOfMembers_le ?_)
    simp only [List.forall_mem_cons]
    have hvalues := Json.depth_ofBindings values
    exact ⟨Nat.zero_le _, by omega, List.forall_mem_nil _⟩

theorem depth_listToJson {steps : List Step} {depth : Nat}
    (h : ∀ s ∈ steps, s.toJson.depth ≤ depth) : (listToJson steps).depth ≤ depth + 1 := by
  refine Nat.succ_le_succ (Json.depthOfItems_le fun item hitem => ?_)
  obtain ⟨s, hs, rfl⟩ := List.mem_map.1 hitem
  exact h s hs

end Step

/-! ## Solutions -/

namespace Registry

/-- How deep the formulas of the catalogs at hand are nested at most. -/
def formulaDepth : Nat := 6

theorem depth_formula_builtin {c : Catalog} (h : c ∈ builtin.catalogs) {r : Relation}
    (hr : r ∈ c.relations) : r.formula.toJson.depth ≤ formulaDepth := by
  have hall : (builtin.catalogs.all fun c =>
      c.relations.all (·.formula.toJson.depth ≤ formulaDepth)) = true := by decide +kernel
  exact of_decide_eq_true (List.all_eq_true.1 (List.all_eq_true.1 hall c h) r hr)

variable {line : String} {steps : List Step}

/-- Both formulas of a solved step are nested as deep as that of its relation. -/
theorem depth_formulas (h : builtin.solve line = .ok steps) {s : Step} (hs : s ∈ steps) :
    ∀ e ∈ s.formulas, e.toJson.depth ≤ formulaDepth := by
  cases s with
  | error message => exact List.forall_mem_nil _
  | solved s =>
    obtain ⟨c, hc, relation, held, hfind, hsolve⟩ := exists_relation_of_solved h hs
    obtain ⟨substituted, value, hsubstitute, -, rfl⟩ := Move.solve_eq_ok_iff.1 hsolve
    have hdepth := depth_formula_builtin hc (List.mem_of_find?_eq_some hfind)
    refine List.forall_mem_cons.2 ⟨hdepth, List.forall_mem_singleton.2 ?_⟩
    rw [(Expr.filled_of_substitute hsubstitute).depth_toJson]
    exact hdepth
  | hint hint => exact List.forall_mem_nil _
  | summary values => exact List.forall_mem_nil _

/-- **The steps of a line are nested no deeper than a text of unknown shape may be.** -/
theorem depth_listToJson (h : builtin.solve line = .ok steps) :
    (Step.listToJson steps).depth ≤ Json.maxDepth := by
  have hsteps : ∀ s ∈ steps, s.toJson.depth ≤ formulaDepth + 1 :=
    fun s hs => Step.depth_toJson (by decide) (depth_formulas h hs)
  exact Nat.le_trans (Step.depth_listToJson hsteps) (by decide)

end Registry

end Stepwise
