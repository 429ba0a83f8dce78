import Stepwise.Bindings

/-!
# Look-up in bindings

Because entries are sorted and each name has one, a table is known by its look-ups:

> `ext_get?`: tables that answer every look-up alike are equal.

So what is said of insertion in the module of bindings, one look-up at a time, says
all there is to say, also of many insertions (`get?_insertAll`).
-/

namespace Stepwise.Bindings

/-! ## Entries and look-up -/

theorem lookup_eq_none_of_forall_lt {name : String} {l : List (String × Float)}
    (h : ∀ e ∈ l, name < e.1) : l.lookup name = none := by
  rw [List.lookup_eq_none_iff]
  intro e he
  have hne : e.1 ≠ name := fun heq => String.lt_irrefl name (heq ▸ h e he)
  simpa using fun heq => hne heq.symm

theorem lookup_eq_some_iff {name : String} {value : Float} {l : List (String × Float)}
    (hl : l.Pairwise fun a b => a.1 < b.1) :
    l.lookup name = some value ↔ (name, value) ∈ l := by
  induction l with
  | nil => simp
  | cons e l ih =>
    obtain ⟨n, v⟩ := e
    obtain ⟨hhead, htail⟩ := List.pairwise_cons.1 hl
    rw [lookup_cons_eq_ite, List.mem_cons]
    split
    · next h =>
      subst h
      constructor
      · intro hv
        exact .inl (by rw [Option.some.inj hv])
      · rintro (heq | hmem)
        · rw [(Prod.mk.inj heq).2]
        · exact absurd (hhead _ hmem) (String.lt_irrefl _)
    · next h =>
      rw [ih htail]
      constructor
      · exact .inr
      · rintro (heq | hmem)
        · exact absurd (Prod.mk.inj heq).1 h
        · exact hmem

/-- The entries of a table are its look-ups. -/
theorem mem_entries_iff {b : Bindings} {name : String} {value : Float} :
    (name, value) ∈ b.entries ↔ b.get? name = some value :=
  (lookup_eq_some_iff b.sorted).symm

theorem nodup_entries (b : Bindings) : b.entries.Nodup :=
  List.Pairwise.imp (fun {d e} (hlt : d.1 < e.1) (heq : d = e) =>
    String.lt_irrefl e.1 (heq ▸ hlt)) b.sorted

/-- **Tables that answer every look-up alike are equal.** -/
theorem ext_get? {a b : Bindings} (h : ∀ name, a.get? name = b.get? name) : a = b := by
  have hperm : a.entries.Perm b.entries := by
    rw [List.perm_ext_iff_of_nodup a.nodup_entries b.nodup_entries]
    rintro ⟨name, value⟩
    rw [mem_entries_iff, mem_entries_iff, h]
  refine Bindings.ext (hperm.eq_of_pairwise ?_ a.sorted b.sorted)
  intro d e _ _ hlt hgt
  exact absurd hgt (String.lt_asymm hlt)

theorem contains_iff {b : Bindings} {name : String} :
    b.contains name = true ↔ ∃ value, b.get? name = some value := by
  rw [contains, Option.isSome_iff_exists]

theorem contains_eq_false_iff {b : Bindings} {name : String} :
    b.contains name = false ↔ b.get? name = none := by
  rw [contains, Option.isSome_eq_false_iff, Option.isNone_iff_eq_none]

/-- Different names can be bound in either order. -/
theorem insert_comm (b : Bindings) {name name' : String} (hne : name ≠ name')
    (value value' : Float) :
    (b.insert name value).insert name' value' = (b.insert name' value').insert name value := by
  refine ext_get? fun m => ?_
  rw [get?_insert, get?_insert, get?_insert, get?_insert]
  by_cases hname : m = name
  · rw [if_neg fun hname' => hne (hname.symm.trans hname'), if_pos hname, if_pos hname]
  · rw [if_neg hname, if_neg hname]

/-! ## Many insertions -/

/-- The entries of a sorted list count over what was bound before. -/
theorem get?_insertAll {l : List (String × Float)} (hl : l.Pairwise fun a b => a.1 < b.1)
    (b : Bindings) (name : String) :
    (b.insertAll l).get? name = (l.lookup name).or (b.get? name) := by
  induction l generalizing b with
  | nil => rfl
  | cons e l ih =>
    obtain ⟨hhead, htail⟩ := List.pairwise_cons.1 hl
    show ((b.insert e.1 e.2).insertAll l).get? name = _
    rw [ih htail, get?_insert, lookup_cons_eq_ite]
    split
    · next h =>
      subst h
      rw [lookup_eq_none_of_forall_lt hhead]
      rfl
    · rfl

theorem get?_insertAll_entries (b set : Bindings) (name : String) :
    (b.insertAll set.entries).get? name = (set.get? name).or (b.get? name) :=
  get?_insertAll set.sorted b name

/-- A table is the table of its entries. -/
theorem ofList_entries (b : Bindings) : ofList b.entries = b := by
  refine ext_get? fun name => ?_
  show (empty.insertAll b.entries).get? name = b.get? name
  rw [get?_insertAll_entries, get?_empty, Option.or_none]

/-- Of several entries of a name the last counts. -/
theorem get?_insertAll_reverse (b : Bindings) (l : List (String × Float)) (name : String) :
    (b.insertAll l).get? name = (l.reverse.lookup name).or (b.get? name) := by
  induction l generalizing b with
  | nil => rfl
  | cons e l ih =>
    show ((b.insert e.1 e.2).insertAll l).get? name = _
    have hlast : [e].lookup name = if name = e.1 then some e.2 else none :=
      lookup_cons_eq_ite name e.1 e.2 []
    rw [ih, get?_insert, List.reverse_cons, List.lookup_append, hlast, Option.or_assoc]
    split
    · rfl
    · rfl

theorem get?_ofList (l : List (String × Float)) (name : String) :
    (ofList l).get? name = l.reverse.lookup name := by
  rw [ofList, get?_insertAll_reverse, get?_empty, Option.or_none]

/-- Overwriting the same values again changes nothing. -/
theorem insertAll_entries_idem (b set : Bindings) :
    (b.insertAll set.entries).insertAll set.entries = b.insertAll set.entries := by
  refine ext_get? fun name => ?_
  simp only [get?_insertAll_entries]
  cases set.get? name <;> rfl

/-- Entries that repeat what a table holds leave that at their names, in whatever order
and however often they say it. -/
theorem get?_insertAll_of_held {held : Bindings} {l : List (String × Float)}
    (hl : ∀ e ∈ l, held.get? e.1 = some e.2) (b : Bindings) (name : String) :
    (b.insertAll l).get? name = if name ∈ l.map (·.1) then held.get? name else b.get? name := by
  induction l generalizing b with
  | nil => rfl
  | cons e l ih =>
    obtain ⟨hhead, htail⟩ := List.forall_mem_cons.1 hl
    show ((b.insert e.1 e.2).insertAll l).get? name = _
    rw [ih htail, get?_insert, List.map_cons]
    by_cases hname : name = e.1
    · subst hname
      rw [if_pos rfl, if_pos List.mem_cons_self, hhead, ite_self]
    · rw [if_neg hname]
      simp only [List.mem_cons, hname, false_or]

/-- What the entries of a table satisfy, and the entries put over it, the result satisfies. -/
theorem forall_mem_insertAll {p : String × Float → Prop} {b : Bindings}
    {l : List (String × Float)} (hb : ∀ e ∈ b.entries, p e) (hl : ∀ e ∈ l, p e) :
    ∀ e ∈ (b.insertAll l).entries, p e := by
  induction l generalizing b with
  | nil => exact hb
  | cons e l ih =>
    refine ih ?_ (fun d hd => hl d (List.mem_cons_of_mem _ hd))
    intro d hd
    rcases mem_insertEntry hd with rfl | hd
    · exact hl _ (List.mem_cons_self ..)
    · exact hb d hd

/-! ## How many names are bound -/

/-- An insertion binds one name more at most. -/
theorem length_insertEntry_le (name : String) (value : Float) (l : List (String × Float)) :
    (insertEntry name value l).length ≤ l.length + 1 := by
  fun_induction insertEntry name value l with
  | case1 => exact Nat.le_refl _
  | case2 n v rest => exact Nat.le_refl _
  | case3 v rest => exact Nat.le_succ _
  | case4 n v rest _ _ ih => exact Nat.succ_le_succ ih

theorem length_insertAll_le (b : Bindings) (l : List (String × Float)) :
    (b.insertAll l).entries.length ≤ b.entries.length + l.length := by
  induction l generalizing b with
  | nil => exact Nat.le_refl _
  | cons e l ih =>
    have hinsert := length_insertEntry_le e.1 e.2 b.entries
    calc
      _ ≤ (b.insert e.1 e.2).entries.length + l.length := ih _
      _ ≤ b.entries.length + 1 + l.length := Nat.add_le_add_right hinsert _
      _ = b.entries.length + (e :: l).length := by rw [List.length_cons]; omega

/-- No more names are bound than there are entries. -/
theorem length_ofList_le (l : List (String × Float)) : (ofList l).entries.length ≤ l.length :=
  Nat.le_trans (length_insertAll_le empty l) (Nat.le_of_eq (Nat.zero_add _))

end Stepwise.Bindings
