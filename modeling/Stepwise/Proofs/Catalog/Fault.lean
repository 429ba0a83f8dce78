import Stepwise.Proofs.Catalog.Registration
import Stepwise.Proofs.Expr.Places
import Stepwise.Proofs.Sequence

/-!
# The first fault of a catalog

A relation is faulty in one of two ways. If it takes its own output, that is its fault,
whatever its formula is. If not, its fault is the name at the leftmost place of the formula
that the relation does not take, however deep in the formula it stands:

> `fault?_eq_some_iff`: what is reported of a relation is its fault.

A catalog is as faulty as its first faulty relation (`fault?_first`).
-/

namespace Stepwise

namespace Relation

variable {r : Relation} {catalog : String}

/-- The names of the quantities that a relation takes. -/
def inputs (r : Relation) : List String := r.takes.map (·.name)

/-- The relation does not take its own output, and takes the name at every place of its
formula. -/
structure IsDeclared (r : Relation) : Prop where
  output : r.gives.name ∉ r.inputs
  inputs : ∀ place name, r.formula.nameAt? place = some name → name ∈ r.inputs

/-- The fault of a relation in a catalog. -/
inductive HasFault (r : Relation) (catalog : String) : CatalogFault → Prop
  /-- Taking one's own output is the fault whatever the formula is. -/
  | ownOutput (h : r.gives.name ∈ r.inputs) :
      HasFault r catalog (.outputAmongInputs catalog r.title r.gives.name)
  /-- Else the leftmost name of the formula that is not taken is the fault. -/
  | undeclared {name : String} (h : r.gives.name ∉ r.inputs)
      (hname : r.formula.IsLeftmost (· ∉ r.inputs) name) :
      HasFault r catalog (.undeclaredInput catalog r.title name)

/-! ## The fault of a relation -/

theorem takesName_eq_decide (r : Relation) (name : String) :
    r.takesName name = decide (name ∈ r.inputs) := by
  rw [Bool.eq_iff_iff, decide_eq_true_iff, takesName_iff, inputs, List.mem_map]

/-- What is declared at every place is what registration asks for. -/
theorem isDeclared_iff_isSound : r.IsDeclared ↔ r.IsSound := by
  have hplaces : (∀ place name, r.formula.nameAt? place = some name → name ∈ r.inputs) ↔
      ∀ name ∈ r.formula.occurrences, name ∈ r.inputs := by
    simp only [Expr.mem_occurrences_iff]
    exact ⟨fun h name ⟨place, hplace⟩ => h place name hplace,
      fun h place name hplace => h name ⟨place, hplace⟩⟩
  exact ⟨fun h => ⟨h.output, hplaces.1 h.inputs⟩, fun h => ⟨h.1, hplaces.2 h.2⟩⟩

theorem fault?_eq_none_iff_isDeclared : r.fault? catalog = none ↔ r.IsDeclared :=
  fault?_eq_none_iff_isSound.trans isDeclared_iff_isSound.symm

/-- **What is reported of a relation is its fault.** -/
theorem fault?_eq_some_iff {fault : CatalogFault} :
    r.fault? catalog = some fault ↔ r.HasFault catalog fault := by
  have hsearch (name : String) :
      (r.formula.names.find? fun name => !r.takesName name) = some name ↔
        r.formula.IsLeftmost (· ∉ r.inputs) name := by
    simp only [takesName_eq_decide, ← decide_not]
    rw [Expr.names, find?_eraseDups]
    exact Expr.find?_occurrences_eq_some_iff
  unfold fault?
  rw [takesName_eq_decide]
  by_cases hown : r.gives.name ∈ r.inputs
  · rw [if_pos (decide_eq_true hown), Option.some.injEq]
    constructor
    · rintro rfl
      exact .ownOutput hown
    · rintro (_ | ⟨hnot, -⟩)
      · rfl
      · exact absurd hown hnot
  · rw [if_neg (by rwa [decide_eq_true_iff]), Option.map_eq_some_iff]
    constructor
    · rintro ⟨name, hname, rfl⟩
      exact .undeclared hown ((hsearch name).1 hname)
    · rintro (hown' | ⟨-, hname⟩)
      · exact absurd hown' hown
      · exact ⟨_, (hsearch _).2 hname, rfl⟩

end Relation

/-! ## The fault of a catalog -/

namespace Catalog

/-- **The check of a catalog reports its first fault.** It finds none exactly if no relation
takes its own output and every relation takes the names at all places of its formula. What
it finds else is the fault of the first relation in the order of declaration that has one. -/
theorem fault?_first (c : Catalog) :
    (c.fault? = none ↔ ∀ r ∈ c.relations, r.IsDeclared) ∧
      ∀ fault, c.fault? = some fault ↔
        ∃ before r after, c.relations = before ++ r :: after ∧
          (∀ x ∈ before, x.IsDeclared) ∧ r.HasFault c.name fault := by
  constructor
  · simp only [fault?_eq_none_iff, Relation.fault?_eq_none_iff_isDeclared]
  · intro fault
    unfold fault?
    simp only [List.findSome?_eq_some_iff, Relation.fault?_eq_none_iff_isDeclared,
      Relation.fault?_eq_some_iff]
    constructor
    · rintro ⟨before, r, after, hrelations, hfault, hbefore⟩
      exact ⟨before, r, after, hrelations, hbefore, hfault⟩
    · rintro ⟨before, r, after, hrelations, hbefore, hfault⟩
      exact ⟨before, r, after, hrelations, hfault, hbefore⟩

/-- A relation that takes its own output is at fault for that, though its formula names what
it does not take, and the faulty relation behind it is not reached. -/
example :
    let x : Quantity := ⟨"x", none⟩
    let y : Quantity := ⟨"y", none⟩
    let z : Quantity := ⟨"z", none⟩
    let loop : Relation := ⟨"Loop", "", [x], x, .sum [.variable x, .variable z], .empty⟩
    let leak : Relation := ⟨"Leak", "", [x], y, .sqrt (.sum [.variable y, .variable z]), .empty⟩
    (⟨"broken", [loop, leak], [], []⟩ : Catalog).fault? =
        some (.outputAmongInputs "broken" "Loop" "x") ∧
      (⟨"broken", [leak, loop], [], []⟩ : Catalog).fault? =
        some (.undeclaredInput "broken" "Leak" "y") := by
  decide

end Catalog

end Stepwise
