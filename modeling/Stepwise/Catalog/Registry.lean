import Stepwise.Catalog.Basic

/-!
# The catalogs at hand

A registry holds sound catalogs under different names, in the order in which they
were registered. The type carries both facts, so every look-up meets one catalog
at most, and every catalog found is sound.
-/

namespace Stepwise

/-- Sound catalogs under different names. -/
structure Registry where
  catalogs : List Catalog
  sound : ∀ c ∈ catalogs, c.fault? = none
  distinct : catalogs.Pairwise fun a b => a.name ≠ b.name

namespace Registry

/-- No catalog is registered. -/
def empty : Registry := ⟨[], by simp, .nil⟩

instance : Inhabited Registry := ⟨empty⟩

/-- The catalog of a name. -/
def get? (r : Registry) (name : String) : Option Catalog := r.catalogs.find? (·.name == name)

/-- The names of the catalogs in the order of registration. -/
def names (r : Registry) : List String := r.catalogs.map (·.name)

/-- Only the catalogs that are there have a name that is taken. -/
theorem name_ne_of_get?_eq_none {r : Registry} {name : String} (h : r.get? name = none) :
    ∀ c ∈ r.catalogs, c.name ≠ name := by
  simpa [get?] using h

/-- Offer a catalog to a registry: the fault that it meets, if any, and the registry
afterwards. It is added if its name is new and it is sound; a taken name is the fault
even of an unsound catalog. -/
def offer (r : Registry) (c : Catalog) : Option CatalogFault × Registry :=
  match htaken : r.get? c.name with
  | some _ => (some (.duplicate c.name), r)
  | none =>
    match hfault : c.fault? with
    | some fault => (some fault, r)
    | none => (none, {
        catalogs := r.catalogs ++ [c]
        sound := by
          intro d hd
          rcases List.mem_append.1 hd with hd | hd
          · exact r.sound d hd
          · exact List.mem_singleton.1 hd ▸ hfault
        distinct := by
          refine List.pairwise_append.2 ⟨r.distinct, List.pairwise_singleton .., ?_⟩
          intro d hd e he
          exact List.mem_singleton.1 he ▸ name_ne_of_get?_eq_none htaken d hd })

/-- The registry with one more catalog, or the fault that the catalog meets. -/
def register (r : Registry) (c : Catalog) : Except CatalogFault Registry :=
  match r.offer c with
  | (some fault, _) => .error fault
  | (none, r') => .ok r'

/-- The registry after each catalog has been offered in turn. -/
def registerAll (r : Registry) (catalogs : List Catalog) : Registry :=
  catalogs.foldl (fun r c => (r.offer c).2) r

end Registry

end Stepwise
