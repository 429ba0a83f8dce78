import Stepwise.Solution.Move

/-!
# Derivations

A derivation makes moves until there is none, and looks for the next move from
the start after each. It ends because every move binds a name that was unbound
and that the catalogs can produce (`nextMove?_target`), so fewer such names are
left (`length_pending_insert_lt`).
-/

namespace Stepwise

/-- The names that some catalogs can bind: outputs of relations, and defaults. -/
def producible (imports : List Catalog) : List String :=
  (relationsOf imports).map (·.2.gives.name) ++ (implicitsOf imports).map (·.1)

/-- The producible names that are still unbound. -/
def pending (imports : List Catalog) (b : Bindings) : List String :=
  (producible imports).filter fun name => !b.contains name

/-! ## Every move binds a pending name -/

theorem nextRelation?_target {imports : List Catalog} {b : Bindings} {m : Move}
    (h : nextRelation? imports b = some m) : m.target ∈ pending imports b := by
  obtain ⟨r, hfind, rfl⟩ := Option.map_eq_some_iff.1 h
  have happlicable := List.find?_some hfind
  simp only [Relation.isApplicable, Bool.and_eq_true] at happlicable
  refine List.mem_filter.2 ⟨List.mem_append_left _ ?_, happlicable.1.1⟩
  exact List.mem_map.2 ⟨r, List.mem_of_find?_eq_some hfind, rfl⟩

theorem nextImplicit?_target {imports : List Catalog} {b : Bindings} {m : Move}
    (h : nextImplicit? imports b = some m) : m.target ∈ pending imports b := by
  obtain ⟨i, hfind, rfl⟩ := Option.map_eq_some_iff.1 h
  have hunbound := List.find?_some hfind
  refine List.mem_filter.2 ⟨List.mem_append_right _ ?_, hunbound⟩
  exact List.mem_map.2 ⟨i, List.mem_of_find?_eq_some hfind, rfl⟩

/-- A move binds a name that is unbound and that the catalogs can produce. -/
theorem nextMove?_target {imports : List Catalog} {assuming : Bool} {b : Bindings} {m : Move}
    (h : nextMove? imports assuming b = some m) : m.target ∈ pending imports b := by
  rcases Option.or_eq_some_iff.1 h with h | ⟨_, h⟩
  · exact nextRelation?_target h
  · cases assuming
    · cases h
    · exact nextImplicit?_target h

/-- Binding a pending name leaves fewer names pending. -/
theorem length_pending_insert_lt {imports : List Catalog} {b : Bindings} {name : String}
    (value : Float) (h : name ∈ pending imports b) :
    (pending imports (b.insert name value)).length < (pending imports b).length := by
  have heq : pending imports (b.insert name value) =
      (pending imports b).filter fun n => n != name := by
    simp only [pending, List.filter_filter]
    refine List.filter_congr fun n _ => ?_
    rw [Bindings.contains_insert, Bool.not_or]
    rfl
  rw [heq]
  exact List.length_filter_lt_length_iff_exists.2 ⟨name, h, by simp⟩

/-- The steps of all moves from given values on, and the values at the end. -/
def derive (imports : List Catalog) (assuming : Bool) (b : Bindings) :
    Except SolveFault (List Step × Bindings) :=
  match _h : nextMove? imports assuming b with
  | none => .ok ([], b)
  | some move =>
    match move.perform b with
    | .error fault => .error fault
    | .ok (step, value) =>
      (derive imports assuming (b.insert move.target value)).map
        fun (steps, final) => (step :: steps, final)
termination_by (pending imports b).length
decreasing_by exact length_pending_insert_lt _ (nextMove?_target ‹_›)

end Stepwise
