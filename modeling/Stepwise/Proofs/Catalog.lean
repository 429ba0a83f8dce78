import Stepwise.Catalog.Builtin
import Stepwise.Proofs.Expr.Substitution

/-!
# Sound catalogs

What registration checks is what the use of a relation needs. A relation of a sound
catalog takes every name of its formula, and an applicable relation has every name
that it takes bound:

> `exists_substitute`: the formula of an applicable relation of a sound catalog can
> be substituted.

What is left to fail is the reference angle of an angle on an axis, which of the
catalogs at hand none asks for (`asksReference_builtin`).
-/

namespace Stepwise

/-! ## The checks of a relation -/

namespace Relation

theorem takesName_iff {r : Relation} {name : String} :
    r.takesName name = true ↔ ∃ q ∈ r.takes, q.name = name := by
  unfold takesName
  rw [List.any_eq_true]
  simp only [beq_iff_eq]

theorem mem_names_iff {e : Expr} {name : String} : name ∈ e.names ↔ name ∈ e.occurrences :=
  List.mem_eraseDups

/-- A relation without a fault does not take its own output, and takes every name
of its formula. -/
theorem fault?_eq_none_iff {r : Relation} {catalog : String} :
    r.fault? catalog = none ↔
      r.takesName r.gives.name = false ∧
        ∀ name ∈ r.formula.occurrences, r.takesName name = true := by
  unfold fault?
  by_cases hown : r.takesName r.gives.name = true
  · rw [if_pos hown, hown]
    simp
  · rw [if_neg hown, Option.map_eq_none_iff, List.find?_eq_none]
    simp only [mem_names_iff, Bool.not_eq_true', Bool.not_eq_false, hown, true_and]

/-- An applicable relation gives an unbound name, takes bound ones and sees the
values that it presumes. -/
theorem isApplicable_iff {r : Relation} {b : Bindings} :
    r.isApplicable b = true ↔
      b.contains r.gives.name = false ∧ (∀ q ∈ r.takes, b.contains q.name = true) ∧
        ∀ e ∈ r.presumes.entries, (b.get? e.1 == some e.2) = true := by
  unfold isApplicable
  simp only [Bool.and_eq_true, Bool.not_eq_true', List.all_eq_true, and_assoc]

/-- **An applicable relation can be substituted**, if it takes what its formula names. -/
theorem exists_substitute {r : Relation} {b : Bindings} {catalog : String}
    (hsound : r.fault? catalog = none) (happlicable : r.isApplicable b = true) :
    ∃ e, r.formula.substitute b = .ok e := by
  refine Expr.exists_substitute fun name hname => ?_
  obtain ⟨q, hq, rfl⟩ := takesName_iff.1 ((fault?_eq_none_iff.1 hsound).2 name hname)
  exact (isApplicable_iff.1 happlicable).2.1 q hq

end Relation

namespace Catalog

theorem fault?_eq_none_iff {c : Catalog} :
    c.fault? = none ↔ ∀ r ∈ c.relations, r.fault? c.name = none :=
  List.findSome?_eq_none_iff

/-- Whether a formula of the catalog asks for a reference angle. -/
def asksReference (c : Catalog) : Bool :=
  c.relations.any fun r => r.formula.functions.contains .reference

theorem asksReference_eq_false_iff {c : Catalog} :
    c.asksReference = false ↔ ∀ r ∈ c.relations, .reference ∉ r.formula.functions := by
  unfold asksReference
  simp only [List.any_eq_false, List.contains_iff_mem]

end Catalog

/-! ## Registration -/

namespace Registry

variable {r r' : Registry} {c : Catalog}

theorem mem_of_get? {name : String} (h : r.get? name = some c) : c ∈ r.catalogs :=
  List.mem_of_find?_eq_some h

/-- **An offer ends in one of three ways**: the name is taken, or the catalog has a fault,
and in both the registry stays as it was; or the catalog is put behind those that are
there. -/
theorem offer_cases (r : Registry) (c : Catalog) :
    (r.get? c.name ≠ none ∧ r.offer c = (some (.duplicate c.name), r)) ∨
    (r.get? c.name = none ∧ ∃ fault, c.fault? = some fault ∧ r.offer c = (some fault, r)) ∨
    (r.get? c.name = none ∧ c.fault? = none ∧
      ∃ r', r.offer c = (none, r') ∧ r'.catalogs = r.catalogs ++ [c]) := by
  unfold offer
  split
  · next d htaken =>
    rw [htaken]
    exact .inl ⟨nofun, rfl⟩
  · next htaken =>
    split
    · next fault hfault => exact .inr (.inl ⟨htaken, fault, hfault, rfl⟩)
    · next hfault => exact .inr (.inr ⟨htaken, hfault, _, rfl, rfl⟩)

/-- **A refused offer leaves the registry as it was.** -/
theorem offer_of_fault {fault : CatalogFault} (h : (r.offer c).1 = some fault) :
    (r.offer c).2 = r := by
  rcases offer_cases r c with ⟨-, hoffer⟩ | ⟨-, _, -, hoffer⟩ | ⟨-, -, r', hoffer, -⟩
  · rw [hoffer]
  · rw [hoffer]
  · rw [hoffer] at h
    cases h

/-- An offer adds its catalog exactly if it meets no fault. -/
theorem catalogs_offer (r : Registry) (c : Catalog) :
    (r.offer c).2.catalogs = r.catalogs ++ if (r.offer c).1.isNone then [c] else [] := by
  rcases offer_cases r c with ⟨-, hoffer⟩ | ⟨-, _, -, hoffer⟩ | ⟨-, -, r', hoffer, hcatalogs⟩
  · rw [hoffer]
    exact (List.append_nil _).symm
  · rw [hoffer]
    exact (List.append_nil _).symm
  · rw [hoffer]
    exact hcatalogs

theorem mem_offer {d : Catalog} (h : d ∈ (r.offer c).2.catalogs) : d ∈ r.catalogs ∨ d = c := by
  rw [catalogs_offer] at h
  refine (List.mem_append.1 h).imp_right fun hd => ?_
  split at hd
  · exact List.mem_singleton.1 hd
  · cases hd

/-- What is registered was there or was offered. -/
theorem mem_registerAll {offered : List Catalog} (h : c ∈ (r.registerAll offered).catalogs) :
    c ∈ r.catalogs ∨ c ∈ offered := by
  induction offered generalizing r with
  | nil => exact .inl h
  | cons d offered ih =>
    rcases ih h with h | h
    · rcases mem_offer h with h | rfl
      · exact .inl h
      · exact .inr (List.mem_cons_self ..)
    · exact .inr (List.mem_cons_of_mem _ h)

/-- No catalog that comes with the solver asks for a reference angle. -/
theorem asksReference_builtin (h : c ∈ builtin.catalogs) : c.asksReference = false := by
  rcases mem_registerAll h with h | h
  · cases h
  · simp only [List.mem_cons, List.not_mem_nil, or_false] at h
    rcases h with rfl | rfl | rfl
    · decide
    · decide
    · decide

end Registry

end Stepwise
