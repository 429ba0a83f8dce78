import Stepwise.Proofs.Catalog

/-!
# Sequences of registrations

A registry is filled by one attempt after another, each answered by a fault or by
none. An attempt ends in one of three ways: the name is taken, or the catalog is
faulty, or the catalog is put behind those that are there. So what is registered is
what was admitted, in the order of the attempts:

> `catalogs_registerAll`: the catalogs are those that were there and those of the
> attempts that met no fault.

Nothing that is registered is ever lost or replaced (`get?_registerAll`).
-/

namespace Stepwise

/-! ## What makes a catalog faulty -/

/-- A relation that may stand in a registry: it does not take its own output, and it
takes every name that its formula refers to. -/
def Relation.IsSound (r : Relation) : Prop :=
  r.gives.name ∉ r.takes.map (·.name) ∧
    ∀ name ∈ r.formula.occurrences, name ∈ r.takes.map (·.name)

theorem Relation.fault?_eq_none_iff_isSound {r : Relation} {catalog : String} :
    r.fault? catalog = none ↔ r.IsSound := by
  have htakes (name : String) : name ∈ r.takes.map (·.name) ↔ r.takesName name = true := by
    rw [takesName_iff, List.mem_map]
  unfold IsSound
  rw [fault?_eq_none_iff, htakes, Bool.not_eq_true]
  simp only [htakes]

/-- A taken name is no fault of a relation. -/
theorem Relation.fault?_ne_duplicate (r : Relation) (catalog name : String) :
    r.fault? catalog ≠ some (.duplicate name) := by
  unfold fault?
  split
  · intro h
    cases h
  · intro h
    obtain ⟨_, _, heq⟩ := Option.map_eq_some_iff.1 h
    cases heq

/-- A taken name is no fault of a catalog by itself. -/
theorem Catalog.fault?_ne_duplicate (c : Catalog) (name : String) :
    c.fault? ≠ some (.duplicate name) := by
  intro h
  obtain ⟨r, -, hfault⟩ := List.exists_of_findSome?_eq_some h
  exact r.fault?_ne_duplicate c.name name hfault

namespace Registry

variable {r r' : Registry} {c : Catalog} {name : String}

/-! ## One attempt -/

theorem mem_names_iff : name ∈ r.names ↔ ∃ c ∈ r.catalogs, c.name = name := List.mem_map

theorem get?_eq_none_iff : r.get? name = none ↔ name ∉ r.names := by
  unfold get?
  rw [List.find?_eq_none, mem_names_iff]
  simp only [beq_iff_eq, not_exists, not_and]

theorem register_eq_error_iff {fault : CatalogFault} :
    r.register c = .error fault ↔ (r.offer c).1 = some fault := by
  unfold register
  split
  · next fault' r' hoffer =>
    rw [hoffer, Except.error.injEq]
    exact Option.some_inj.symm
  · next r' hoffer =>
    rw [hoffer]
    exact iff_of_false nofun nofun

/-- **An attempt is refused for its name exactly if the name is taken.** -/
theorem register_duplicate_iff :
    (∃ name, r.register c = .error (.duplicate name)) ↔ c.name ∈ r.names := by
  have htaken : c.name ∈ r.names ↔ r.get? c.name ≠ none := by
    rw [Ne, get?_eq_none_iff, Decidable.not_not]
  rw [htaken]
  simp only [register_eq_error_iff]
  rcases offer_cases r c with ⟨hget, hoffer⟩ | ⟨hget, fault, hfault, hoffer⟩ |
    ⟨hget, -, r', hoffer, -⟩
  · rw [hoffer]
    exact iff_of_true ⟨c.name, rfl⟩ hget
  · rw [hoffer]
    refine iff_of_false ?_ fun hne => hne hget
    rintro ⟨name, hname⟩
    exact c.fault?_ne_duplicate name (hfault.trans hname)
  · rw [hoffer]
    exact iff_of_false nofun fun hne => hne hget

/-! ## One attempt after another -/

/-- The fault that an attempt to register a catalog meets. -/
def answer (r : Registry) (c : Catalog) : Option CatalogFault := (r.offer c).1

/-- The attempts to register some catalogs in turn, each with the fault that it met. -/
def attempts (r : Registry) : List Catalog → List (Catalog × Option CatalogFault)
  | [] => []
  | c :: rest => (c, r.answer c) :: (r.registerAll [c]).attempts rest

/-- The catalogs of the attempts that met no fault, in the order of the attempts. -/
def admitted (r : Registry) (offered : List Catalog) : List Catalog :=
  ((r.attempts offered).filter (·.2.isNone)).map (·.1)

theorem registerAll_append (r : Registry) (offered later : List Catalog) :
    r.registerAll (offered ++ later) = (r.registerAll offered).registerAll later :=
  List.foldl_append

theorem registerAll_cons (r : Registry) (c : Catalog) (offered : List Catalog) :
    r.registerAll (c :: offered) = (r.registerAll [c]).registerAll offered := rfl

/-- **What is registered is what was there and what was admitted since.** -/
theorem catalogs_registerAll (r : Registry) (offered : List Catalog) :
    (r.registerAll offered).catalogs = r.catalogs ++ r.admitted offered := by
  induction offered generalizing r with
  | nil => exact (List.append_nil _).symm
  | cons c offered ih =>
    have hadmitted : r.admitted (c :: offered) =
        (if (r.answer c).isNone then [c] else []) ++ (r.registerAll [c]).admitted offered := by
      unfold admitted
      rw [attempts, List.filter_cons]
      split
      · rfl
      · rfl
    have hoffer : (r.registerAll [c]).catalogs = _ := catalogs_offer r c
    rw [registerAll_cons, ih, hoffer, hadmitted, List.append_assoc]
    rfl

theorem names_registerAll_empty (offered : List Catalog) :
    (empty.registerAll offered).names = (empty.admitted offered).map (·.name) := by
  unfold names
  rw [catalogs_registerAll]
  rfl

/-- A look-up that finds a catalog finds it after any later attempts. -/
theorem get?_registerAll (h : r.get? name = some c) (later : List Catalog) :
    (r.registerAll later).get? name = some c := by
  unfold get? at h ⊢
  rw [catalogs_registerAll, List.find?_append, h]
  rfl

/-! ## Look-up by name -/

theorem nodup_names (r : Registry) : r.names.Nodup := List.pairwise_map.2 r.distinct

/-- Under different names a look-up finds all that there is of a name. -/
theorem filter_name_eq {catalogs : List Catalog} (name : String)
    (h : catalogs.Pairwise fun a b => a.name ≠ b.name) :
    catalogs.filter (·.name == name) = (catalogs.find? (·.name == name)).toList := by
  induction catalogs with
  | nil => rfl
  | cons c catalogs ih =>
    obtain ⟨hhead, htail⟩ := List.pairwise_cons.1 h
    rw [List.filter_cons, List.find?_cons]
    by_cases hname : c.name = name
    · have hnone : catalogs.filter (·.name == name) = [] := by
        rw [List.filter_eq_nil_iff]
        intro d hd
        rw [beq_iff_eq, ← hname]
        exact (hhead d hd).symm
      rw [beq_iff_eq.2 hname, if_pos rfl, hnone]
      rfl
    · rw [beq_false_of_ne hname, if_neg Bool.false_ne_true]
      exact ih htail

/-- A registered catalog is found under its name. -/
theorem get?_of_mem (h : c ∈ r.catalogs) : r.get? c.name = some c := by
  have hmem : c ∈ r.catalogs.filter (·.name == c.name) :=
    List.mem_filter.2 ⟨h, beq_self_eq_true c.name⟩
  rwa [filter_name_eq c.name r.distinct, Option.mem_toList] at hmem

/-- What was admitted under a name is what its look-up finds. -/
theorem filter_admitted (offered : List Catalog) (name : String) :
    (empty.admitted offered).filter (·.name == name) =
      ((empty.registerAll offered).get? name).toList := by
  have hcatalogs : (empty.registerAll offered).catalogs = empty.admitted offered :=
    catalogs_registerAll empty offered
  unfold get?
  rw [← hcatalogs]
  exact filter_name_eq name (empty.registerAll offered).distinct

/-- **A registry of successive attempts**: its names are different, its relations are
sound, its names are those admitted, in order; a look-up finds the one catalog that
was admitted under the name, and finds it ever after; an attempt is refused for its
name exactly if the name is taken, and a refused one changes nothing. -/
theorem registerAll_admits (offered : List Catalog) :
    (empty.registerAll offered).names.Nodup ∧
    (∀ c ∈ (empty.registerAll offered).catalogs, ∀ relation ∈ c.relations, relation.IsSound) ∧
    (empty.registerAll offered).names = (empty.admitted offered).map (·.name) ∧
    (∀ name, (empty.admitted offered).filter (·.name == name) =
      ((empty.registerAll offered).get? name).toList) ∧
    (∀ name c later, (empty.registerAll offered).get? name = some c →
      (empty.registerAll (offered ++ later)).get? name = some c) ∧
    (∀ c, (∃ name, (empty.registerAll offered).register c = .error (.duplicate name)) ↔
      c.name ∈ (empty.registerAll offered).names) ∧
    ∀ c fault, (empty.registerAll offered).register c = .error fault →
      empty.registerAll (offered ++ [c]) = empty.registerAll offered := by
  refine ⟨nodup_names _, ?_, names_registerAll_empty offered, filter_admitted offered, ?_,
    fun c => register_duplicate_iff, ?_⟩
  · intro c hc relation hrelation
    have hsound := Catalog.fault?_eq_none_iff.1 ((empty.registerAll offered).sound c hc)
    exact Relation.fault?_eq_none_iff_isSound.1 (hsound relation hrelation)
  · intro name c later h
    rw [registerAll_append]
    exact get?_registerAll h later
  · intro c fault h
    rw [registerAll_append]
    exact offer_of_fault (register_eq_error_iff.1 h)

/-- A catalog with a relation that takes what it gives. -/
def circular (name : String) : Catalog where
  name
  relations :=
    [{ title := "Compute x"
       description := "A number is itself."
       takes := [⟨"x", none⟩]
       gives := ⟨"x", none⟩
       formula := .variable ⟨"x", none⟩ }]

/-- Faulty catalogs around the slopes, the second of which takes their name. -/
def mixedOffer : List Catalog := [circular "circle", Slopes.catalog, circular "slopes"]

/-- The slopes are admitted and stay, and a circular catalog is refused for its name or
for its relation. -/
theorem registerAll_admits_mixedOffer :
    ((empty.registerAll mixedOffer).names = ["slopes"] ∧
      ∃ relation ∈ Slopes.catalog.relations, relation.IsSound) ∧
    ((empty.registerAll mixedOffer).get? "slopes" = some Slopes.catalog ∧
      (empty.registerAll (mixedOffer ++ [circular "slopes", UnitCircle.catalog])).get? "slopes" =
        some Slopes.catalog) ∧
    ((empty.registerAll mixedOffer).register (circular "slopes") = .error (.duplicate "slopes") ∧
      (empty.registerAll mixedOffer).register (circular "circle") =
        .error (.outputAmongInputs "circle" "Compute x" "x") ∧
      empty.registerAll (mixedOffer ++ [circular "circle"]) = empty.registerAll mixedOffer) := by
  obtain ⟨-, hsound, -, -, hstays, -, hrefused⟩ := registerAll_admits mixedOffer
  refine ⟨⟨rfl, ?_⟩, ⟨rfl, hstays "slopes" _ _ rfl⟩, rfl, rfl, hrefused _ _ rfl⟩
  exact ⟨Slopes.catalog.relations.head (by decide), List.head_mem _,
    hsound Slopes.catalog List.mem_cons_self _ (List.head_mem _)⟩

end Registry

end Stepwise
