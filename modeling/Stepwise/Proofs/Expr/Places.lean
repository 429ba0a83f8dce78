import Stepwise.Proofs.Expr.Substitution

/-!
# Places in a formula

A place in a formula is a way down to one of its parts: which operand to take, which operand
of that one, and so on. Places are compared like words, so what stands further left comes
first. The names of a formula are what its places hold:

> `mem_occurrences_iff`: a name occurs in a formula exactly if a place of it holds the name,
> at whatever depth.

> `find?_occurrences_eq_some_iff`: a search through the names of a formula hits upon the
> leftmost place whose name passes.
-/

namespace Stepwise.Expr

/-- The operands of a formula from left to right. -/
def operands : Expr → List Expr
  | .literal .. => []
  | .variable _ => []
  | .sum terms => terms
  | .product factors => factors
  | .difference left right => [left, right]
  | .quotient left right => [left, right]
  | .sqrt operand => [operand]
  | .power base _ => [base]
  | .group inner => [inner]
  | .call _ argument => [argument]

/-- The name that a formula is, if it is one. -/
def name? : Expr → Option String
  | .variable q => some q.name
  | _ => none

/-- The part of a formula at a place. -/
def part? (e : Expr) : List Nat → Option Expr
  | [] => some e
  | i :: place => e.operands[i]?.bind (·.part? place)

/-- The name that a place of a formula holds. -/
def nameAt? (e : Expr) (place : List Nat) : Option String := (e.part? place).bind name?

/-- A name of a formula that has a property, at a place left of which no name has it. -/
def IsLeftmost (e : Expr) (p : String → Prop) (name : String) : Prop :=
  p name ∧ ∃ place, e.nameAt? place = some name ∧
    ∀ left < place, ∀ n, e.nameAt? left = some n → ¬ p n

/-! ## Formulas and their operands -/

/-- What holds of a formula if it holds of its operands holds of every formula. -/
theorem induction_operands {motive : Expr → Prop}
    (h : ∀ e, (∀ d ∈ e.operands, motive d) → motive e) (e : Expr) : motive e := by
  induction e with
  | literal value unit => exact h _ (List.forall_mem_nil _)
  | quantity q => exact h _ (List.forall_mem_nil _)
  | sum terms ih => exact h _ ih
  | product factors ih => exact h _ ih
  | difference left right hleft hright =>
    exact h _ (List.forall_mem_cons.2 ⟨hleft, List.forall_mem_singleton.2 hright⟩)
  | quotient left right hleft hright =>
    exact h _ (List.forall_mem_cons.2 ⟨hleft, List.forall_mem_singleton.2 hright⟩)
  | sqrt operand ih => exact h _ (List.forall_mem_singleton.2 ih)
  | power base exponent ih => exact h _ (List.forall_mem_singleton.2 ih)
  | group inner ih => exact h _ (List.forall_mem_singleton.2 ih)
  | call function argument ih => exact h _ (List.forall_mem_singleton.2 ih)

theorem occurrencesIn_eq_flatMap (es : List Expr) : occurrencesIn es = es.flatMap occurrences := by
  induction es with
  | nil => rfl
  | cons e es ih => rw [occurrencesIn, List.flatMap_cons, ih]

/-- The names of a formula are the name that it is and those of its operands. -/
theorem occurrences_eq (e : Expr) :
    e.occurrences = e.name?.toList ++ e.operands.flatMap occurrences := by
  cases e <;> simp [occurrences, name?, operands, occurrencesIn_eq_flatMap]

/-- A place within an operand holds what the operand holds there. -/
theorem nameAt?_cons_eq_some_iff {e : Expr} {i : Nat} {place : List Nat} {name : String} :
    e.nameAt? (i :: place) = some name ↔
      ∃ d, e.operands[i]? = some d ∧ d.nameAt? place = some name := by
  rw [← Option.bind_eq_some_iff]
  exact (congrArg (· = some name) (Option.bind_assoc ..)).to_iff

/-! ## Names and places -/

/-- **A name occurs in a formula exactly if a place holds it.** -/
theorem mem_occurrences_iff {e : Expr} {name : String} :
    name ∈ e.occurrences ↔ ∃ place, e.nameAt? place = some name := by
  induction e using induction_operands with
  | h e ih =>
    rw [occurrences_eq, List.mem_append, Option.mem_toList, List.mem_flatMap]
    constructor
    · rintro (hname | ⟨d, hd, hname⟩)
      · exact ⟨[], hname⟩
      · obtain ⟨i, hi⟩ := List.mem_iff_getElem?.1 hd
        obtain ⟨place, hplace⟩ := (ih d hd).1 hname
        exact ⟨i :: place, nameAt?_cons_eq_some_iff.2 ⟨d, hi, hplace⟩⟩
    · rintro ⟨place, hplace⟩
      cases place with
      | nil => exact .inl hplace
      | cons i place =>
        obtain ⟨d, hi, hplace⟩ := nameAt?_cons_eq_some_iff.1 hplace
        have hd := List.mem_of_getElem? hi
        exact .inr ⟨d, hd, (ih d hd).2 ⟨place, hplace⟩⟩

/-- What a search hits upon is the leftmost. -/
theorem isLeftmost_of_find? {e : Expr} {p : String → Prop} [DecidablePred p] {name : String}
    (h : e.occurrences.find? (p ·) = some name) : e.IsLeftmost p name := by
  refine ⟨by simpa using List.find?_some h, ?_⟩
  induction e using induction_operands with
  | h e ih =>
    rw [occurrences_eq, List.find?_append] at h
    rcases Option.or_eq_some_iff.1 h with h | ⟨hnone, h⟩
    · refine ⟨[], Option.mem_toList.1 (List.mem_of_find?_eq_some h), fun left hleft => ?_⟩
      exact absurd hleft (List.not_lt_nil _)
    · -- The hit is in some operand, and none of those before it has one.
      rw [List.find?_flatMap] at h
      obtain ⟨before, d, after, hoperands, hd, hbefore⟩ := List.findSome?_eq_some_iff.1 h
      have hmem : d ∈ e.operands := hoperands ▸ List.mem_append_right _ List.mem_cons_self
      have hat : e.operands[before.length]? = some d := by
        rw [hoperands, List.getElem?_append_right (Nat.le_refl _), Nat.sub_self]
        rfl
      obtain ⟨place, hplace, hfirst⟩ := ih d hmem hd
      refine ⟨before.length :: place, nameAt?_cons_eq_some_iff.2 ⟨d, hat, hplace⟩,
        fun left hleft n hn => ?_⟩
      cases left with
      | nil =>
        have hown := List.find?_eq_none.1 hnone n (Option.mem_toList.2 hn)
        simpa using hown
      | cons i left =>
        obtain ⟨c, hc, hn⟩ := nameAt?_cons_eq_some_iff.1 hn
        rcases List.cons_lt_cons_iff.1 hleft with hi | ⟨rfl, hlt⟩
        · rw [hoperands, List.getElem?_append_left hi] at hc
          have hcnone := List.find?_eq_none.1 (hbefore c (List.mem_of_getElem? hc)) n
            (mem_occurrences_iff.2 ⟨left, hn⟩)
          simpa using hcnone
        · rw [hat] at hc
          obtain rfl := Option.some.inj hc
          exact hfirst left hlt n hn

/-- Of two leftmost names of a property neither is left of the other. -/
theorem IsLeftmost.unique {e : Expr} {p : String → Prop} {name name' : String}
    (h : e.IsLeftmost p name) (h' : e.IsLeftmost p name') : name = name' := by
  obtain ⟨hp, place, hplace, hfirst⟩ := h
  obtain ⟨hp', place', hplace', hfirst'⟩ := h'
  have heq : place = place' := by
    refine List.le_antisymm ?_ ?_
    · exact List.not_lt.1 fun hlt => hfirst place' hlt name' hplace' hp'
    · exact List.not_lt.1 fun hlt => hfirst' place hlt name hplace hp
  rw [heq, hplace'] at hplace
  exact (Option.some.inj hplace).symm

/-- **A search through the names of a formula hits upon the leftmost.** -/
theorem find?_occurrences_eq_some_iff {e : Expr} {p : String → Prop} [DecidablePred p]
    {name : String} : e.occurrences.find? (p ·) = some name ↔ e.IsLeftmost p name := by
  refine ⟨isLeftmost_of_find?, fun h => ?_⟩
  obtain ⟨hp, place, hplace, -⟩ := id h
  cases hfind : e.occurrences.find? (p ·) with
  | none =>
    have hnone := List.find?_eq_none.1 hfind name (mem_occurrences_iff.2 ⟨place, hplace⟩)
    simp [hp] at hnone
  | some found => rw [(isLeftmost_of_find? hfind).unique h]

end Stepwise.Expr
