/-!
# Bindings: the values of named quantities

A table from names to numbers. Its entries are kept sorted by name, code point by
code point, with one entry a name, so tables that answer every look-up alike are
equal, and the order in which names were bound never shows. Reading back what was
written:

> `get?_insert`: `(b.insert n v).get? m` is `v` at `n` and `b.get? m` elsewhere.
-/

namespace Stepwise

/-- The values of named quantities, sorted by name. -/
@[ext] structure Bindings where
  entries : List (String × Float)
  sorted : entries.Pairwise fun a b => a.1 < b.1

namespace Bindings

/-- No name is bound. -/
def empty : Bindings := ⟨[], .nil⟩

instance : Inhabited Bindings := ⟨empty⟩

/-- Tables are compared entry by entry, values as numbers: the two zeros are
alike, and `NaN` differs from itself. -/
instance : BEq Bindings := ⟨fun a b => a.entries == b.entries⟩

/-- Whether no name is bound. -/
def isEmpty (b : Bindings) : Bool := b.entries.isEmpty

/-- The bound names in order. -/
def names (b : Bindings) : List String := b.entries.map (·.1)

/-- The value of a name. -/
def get? (b : Bindings) (name : String) : Option Float := b.entries.lookup name

/-- Whether a name is bound. -/
def contains (b : Bindings) (name : String) : Bool := (b.get? name).isSome

/-- Put an entry in its place among sorted entries, over the one of the same name. -/
def insertEntry (name : String) (value : Float) : List (String × Float) → List (String × Float)
  | [] => [(name, value)]
  | (n, v) :: rest =>
    if name < n then (name, value) :: (n, v) :: rest
    else if name = n then (name, value) :: rest
    else (n, v) :: insertEntry name value rest

theorem mem_insertEntry {name : String} {value : Float} {l : List (String × Float)}
    {e : String × Float} (h : e ∈ insertEntry name value l) : e = (name, value) ∨ e ∈ l := by
  fun_induction insertEntry name value l with
  | case1 => simpa using h
  | case2 => simpa using h
  | case3 =>
    rcases List.mem_cons.1 h with h | h
    · exact .inl h
    · exact .inr (List.mem_cons_of_mem _ h)
  | case4 n v rest _ _ ih =>
    rcases List.mem_cons.1 h with h | h
    · exact .inr (h ▸ List.mem_cons_self ..)
    · exact (ih h).imp_right (List.mem_cons_of_mem _)

/-- Of two different names one comes first. -/
theorem lt_of_not_lt_of_ne {a b : String} (h : ¬ a < b) (hne : a ≠ b) : b < a :=
  String.not_le.1 fun hle => hne (String.le_antisymm hle (String.not_lt.1 h))

theorem sorted_insertEntry {name : String} {value : Float} {l : List (String × Float)}
    (h : l.Pairwise fun a b => a.1 < b.1) :
    (insertEntry name value l).Pairwise fun a b => a.1 < b.1 := by
  fun_induction insertEntry name value l with
  | case1 => exact List.pairwise_singleton ..
  | case2 n v rest hlt =>
    refine List.pairwise_cons.2 ⟨fun e he => ?_, h⟩
    rcases List.mem_cons.1 he with rfl | he
    · exact hlt
    · exact String.lt_trans hlt ((List.pairwise_cons.1 h).1 e he)
  | case3 v rest hlt =>
    exact List.pairwise_cons.2 (List.pairwise_cons.1 h)
  | case4 n v rest hlt hne ih =>
    obtain ⟨hhead, htail⟩ := List.pairwise_cons.1 h
    refine List.pairwise_cons.2 ⟨fun e he => ?_, ih htail⟩
    rcases mem_insertEntry he with rfl | he
    · exact lt_of_not_lt_of_ne hlt hne
    · exact hhead e he

/-- Bind a name, over any value that it had. -/
def insert (b : Bindings) (name : String) (value : Float) : Bindings :=
  ⟨insertEntry name value b.entries, sorted_insertEntry b.sorted⟩

/-- Bind every name of a list in order, later entries over earlier ones. -/
def insertAll (b : Bindings) (entries : List (String × Float)) : Bindings :=
  entries.foldl (fun b e => b.insert e.1 e.2) b

/-- The table of a list of entries, the last entry of a name counting. -/
def ofList (entries : List (String × Float)) : Bindings := empty.insertAll entries

/-! ## Look-up -/

theorem lookup_cons_eq_ite (m n : String) (v : Float) (rest : List (String × Float)) :
    ((n, v) :: rest).lookup m = if m = n then some v else rest.lookup m := by
  by_cases h : m = n
  · simp [h]
  · simp [List.lookup_cons, beq_false_of_ne h, h]

theorem lookup_insertEntry {name m : String} {value : Float} {l : List (String × Float)} :
    (insertEntry name value l).lookup m = if m = name then some value else l.lookup m := by
  fun_induction insertEntry name value l with
  | case1 => exact lookup_cons_eq_ite m name value []
  | case2 n v rest => exact lookup_cons_eq_ite m name value _
  | case3 v rest =>
    simp only [lookup_cons_eq_ite]
    split <;> rfl
  | case4 n v rest hlt hne ih =>
    simp only [lookup_cons_eq_ite, ih]
    by_cases h : m = n
    · subst h
      simp [Ne.symm hne]
    · simp [h]

/-- Reading back what was written. -/
theorem get?_insert (b : Bindings) (name m : String) (value : Float) :
    (b.insert name value).get? m = if m = name then some value else b.get? m :=
  lookup_insertEntry

@[simp] theorem get?_empty (name : String) : empty.get? name = none := rfl

theorem contains_insert (b : Bindings) (name m : String) (value : Float) :
    (b.insert name value).contains m = (m == name || b.contains m) := by
  by_cases h : m = name <;> simp [contains, get?_insert, h]

end Bindings

end Stepwise
