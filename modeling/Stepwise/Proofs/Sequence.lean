/-!
# Computations that can fail

What it takes for a computation of several parts to end as it does: a result has a
result of every part behind it, a fault is the fault of the first part that fails.
Likewise a search ends at its first hit, so it passes over what a list repeats
(`findSome?_eraseDups`).
-/

namespace Stepwise

variable {ε α β γ : Type} {x : Except ε α} {f : α → Except ε β}

theorem bind_eq_ok {y : β} : (x >>= f) = .ok y ↔ ∃ a, x = .ok a ∧ f a = .ok y := by
  cases x with
  | error e => simp [bind, Except.bind]
  | ok a => simp [bind, Except.bind]

theorem bind_eq_error {e : ε} :
    (x >>= f) = .error e ↔ x = .error e ∨ ∃ a, x = .ok a ∧ f a = .error e := by
  cases x with
  | error e => simp [bind, Except.bind]
  | ok a => simp [bind, Except.bind]

/-- A result is made from the result of one computation. -/
theorem bind_pure_eq_ok {make : α → β} {y : β} :
    (x >>= fun a => pure (make a)) = .ok y ↔ ∃ a, x = .ok a ∧ make a = y := by
  rw [bind_eq_ok]
  simp only [pure, Except.pure, Except.ok.injEq]

/-- A result is made from the results of two computations. -/
theorem bind_bind_pure_eq_ok {y : Except ε β} {make : α → β → γ} {z : γ} :
    (x >>= fun a => y >>= fun c => pure (make a c)) = .ok z ↔
      ∃ a c, x = .ok a ∧ y = .ok c ∧ make a c = z := by
  simp only [bind_eq_ok, pure, Except.pure, Except.ok.injEq, exists_and_left]

/-! ## Results passed through a function -/

theorem map_eq_ok {g : α → β} {y : β} : x.map g = .ok y ↔ ∃ a, x = .ok a ∧ g a = y := by
  cases x with
  | error e => simp [Except.map]
  | ok a => simp [Except.map]

theorem map_eq_error {g : α → β} {e : ε} : x.map g = .error e ↔ x = .error e := by
  cases x with
  | error e => simp [Except.map]
  | ok a => simp [Except.map]

theorem map_map (g : α → β) (h : β → γ) : (x.map g).map h = x.map (h ∘ g) := by
  cases x with
  | error e => rfl
  | ok a => rfl

/-! ## Searches through what is repeated -/

/-- A search through what a function gives for some items is a search through the items. -/
theorem findSome?_filterMap (f : α → Option β) (g : β → Option γ) (l : List α) :
    (l.filterMap f).findSome? g = l.findSome? fun a => (f a).bind g := by
  induction l with
  | nil => rfl
  | cons a l ih =>
    rw [List.findSome?_cons, List.filterMap_cons, ← ih]
    cases f a with
    | none => rfl
    | some b => exact List.findSome?_cons

/-- An item without a hit can be left out wherever it stands. -/
theorem findSome?_filter_ne {l : List α} {a : α} {g : α → Option β} [BEq α] [LawfulBEq α]
    (ha : g a = none) : (l.filter fun x => !x == a).findSome? g = l.findSome? g := by
  induction l with
  | nil => rfl
  | cons x l ih =>
    by_cases hx : x = a
    · subst hx
      rw [List.filter_cons_of_neg (by simp), List.findSome?_cons, ha]
      exact ih
    · rw [List.filter_cons_of_pos (by simpa using hx), List.findSome?_cons, List.findSome?_cons, ih]

/-- A hit among some items is the hit among the selected ones, or the hit of an item that is
left out. -/
theorem findSome?_filter_or {l : List α} {g : α → Option β} {y : β} (p : α → Bool)
    (h : l.findSome? g = some y) :
    (l.filter p).findSome? g = some y ∨ ∃ a ∈ l, p a = false ∧ g a = some y := by
  obtain ⟨before, a, after, rfl, ha, hbefore⟩ := List.findSome?_eq_some_iff.1 h
  cases hp : p a with
  | false => exact .inr ⟨a, List.mem_append_right _ List.mem_cons_self, hp, ha⟩
  | true =>
    refine .inl (List.findSome?_eq_some_iff.2 ⟨before.filter p, a, after.filter p, ?_, ha, ?_⟩)
    · rw [List.filter_append, List.filter_cons_of_pos hp]
    · exact fun x hx => hbefore x (List.mem_filter.1 hx).1

theorem findSome?_filter_eq_none {l : List α} {g : α → Option β} (p : α → Bool)
    (h : l.findSome? g = none) : (l.filter p).findSome? g = none := by
  rw [List.findSome?_eq_none_iff] at h ⊢
  exact fun a ha => h a (List.mem_filter.1 ha).1

/-- **A search finds the same among the first occurrences.** -/
theorem findSome?_eraseDups [BEq α] [LawfulBEq α] (g : α → Option β) (l : List α) :
    l.eraseDups.findSome? g = l.findSome? g := by
  match l with
  | [] => rfl
  | a :: l =>
    rw [List.eraseDups_cons, List.findSome?_cons, List.findSome?_cons]
    cases ha : g a with
    | some b => rfl
    | none => exact (findSome?_eraseDups g _).trans (findSome?_filter_ne ha)
termination_by l.length
decreasing_by exact Nat.lt_succ_of_le (List.length_filter_le _ _)

theorem find?_eraseDups [BEq α] [LawfulBEq α] (p : α → Bool) (l : List α) :
    l.eraseDups.find? p = l.find? p := by
  rw [List.find?_eq_findSome?_guard, findSome?_eraseDups, List.find?_eq_findSome?_guard]

end Stepwise
