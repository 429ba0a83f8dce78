import Stepwise.Expr.Json
import Stepwise.Proofs.Expr.Substitution
import Stepwise.Proofs.Json.Basic
import Stepwise.Proofs.Json.Text

/-!
# Formulas written and read back

Every node of a formula is written as a record of its own, and read by the kind that
the record names:

> `read?_toJson`: a formula of finite numbers is read back from its JSON, at any depth.

The induction is on the formula; a node is read from the fields that it wrote, and a
list of operands from its items. That the text of every formula is JSON
(`fits_any_toJson`) goes by the same cases.
-/

namespace Stepwise

/-- A quantity is read back, with its unit or without. -/
theorem Quantity.reads_toJson (q : Quantity) : ofJson? q.toJson = some q := by
  obtain ⟨name, unit⟩ := q
  cases unit with
  | none => rfl
  | some unit => rfl

theorem AngleFunction.ofJson?_tag (f : AngleFunction) : ofJson? (.string f.tag) = some f :=
  ofTag?_tag f

theorem Json.int32?_toInt (n : Int32) : (Json.integer n.toInt).int32? = some n := by
  show (if (Int32.ofInt n.toInt).toInt = n.toInt then some (Int32.ofInt n.toInt) else none) = _
  rw [Int32.ofInt_toInt, if_pos rfl]

namespace Expr

mutual

/-- The numbers in a formula, from left to right. -/
def literals : Expr → List Float
  | .literal value _ => [value]
  | .variable _ => []
  | .sum terms => literalsIn terms
  | .product factors => literalsIn factors
  | .difference left right => left.literals ++ right.literals
  | .quotient left right => left.literals ++ right.literals
  | .sqrt operand => operand.literals
  | .power base _ => base.literals
  | .group inner => inner.literals
  | .call _ argument => argument.literals

/-- The numbers in a list of operands, from left to right. -/
def literalsIn : List Expr → List Float
  | [] => []
  | e :: rest => e.literals ++ literalsIn rest

end

/-- A formula without infinities and values that are no numbers. -/
def IsFinite (e : Expr) : Prop := ∀ x ∈ e.literals, Number.isFinite x = true

instance (e : Expr) : Decidable e.IsFinite :=
  inferInstanceAs (Decidable (∀ x ∈ e.literals, Number.isFinite x = true))

theorem isFinite_of_mem {terms : List Expr} (h : ∀ x ∈ literalsIn terms, Number.isFinite x = true) :
    ∀ e ∈ terms, e.IsFinite := by
  induction terms with
  | nil => exact List.forall_mem_nil _
  | cons e terms ih =>
    obtain ⟨hhead, htail⟩ := List.forall_mem_append.1 h
    exact List.forall_mem_cons.2 ⟨hhead, ih htail⟩

/-- Operands are read back if each of them is. -/
theorem readAll?_toJsons {terms : List Expr} (h : ∀ e ∈ terms, read? true e.toJson = some e) :
    readAll? (toJsons terms) = some terms := by
  induction terms with
  | nil => rw [toJsons, readAll?]
  | cons e terms ih =>
    obtain ⟨hhead, htail⟩ := List.forall_mem_cons.1 h
    rw [toJsons, readAll?, hhead, ih htail]
    rfl

/-- **A formula of finite numbers is read back**, whether it stands inside another value
or not. -/
theorem read?_toJson {e : Expr} (he : e.IsFinite) (inside : Bool) :
    read? inside e.toJson = some e := by
  induction e generalizing inside with
  | literal value unit =>
    have hvalue := Json.number?_ofFloat (he value List.mem_cons_self)
    rw [toJson, read?]
    show ((Json.ofFloat value).number?.bind fun value =>
      (Json.optional (.object _) 2 "unit" Json.textOrNull? none).bind fun unit =>
        some (literal value unit)) = _
    rw [hvalue]
    cases unit with
    | none => rfl
    | some unit => rfl
  | quantity q =>
    obtain ⟨name, unit⟩ := q
    rw [toJson, read?]
    cases unit with
    | none => rfl
    | some unit => rfl
  | sum terms ih =>
    rw [toJson, read?]
    show (readAll? (toJsons terms)).bind (some <| sum ·) = _
    rw [readAll?_toJsons fun e hmem => ih e hmem (isFinite_of_mem he e hmem) true]
    rfl
  | product factors ih =>
    rw [toJson, read?]
    show (readAll? (toJsons factors)).bind (some <| product ·) = _
    rw [readAll?_toJsons fun e hmem => ih e hmem (isFinite_of_mem he e hmem) true]
    rfl
  | difference left right ihleft ihright =>
    obtain ⟨hleft, hright⟩ := List.forall_mem_append.1 he
    rw [toJson, read?]
    show ((read? true left.toJson).bind fun l =>
      (read? true right.toJson).bind fun r => some (difference l r)) = _
    rw [ihleft hleft, ihright hright]
    rfl
  | quotient left right ihleft ihright =>
    obtain ⟨hleft, hright⟩ := List.forall_mem_append.1 he
    rw [toJson, read?]
    show ((read? true left.toJson).bind fun l =>
      (read? true right.toJson).bind fun r => some (quotient l r)) = _
    rw [ihleft hleft, ihright hright]
    rfl
  | sqrt operand ih =>
    rw [toJson, read?]
    show (read? true operand.toJson).bind (some <| sqrt ·) = _
    rw [ih he]
    rfl
  | power base exponent ih =>
    rw [toJson, read?]
    show ((Json.integer exponent.toInt).int32?.bind fun n =>
      (read? true base.toJson).bind fun b => some (power b n)) = _
    rw [Json.int32?_toInt, ih he]
    rfl
  | group inner ih =>
    rw [toJson, read?]
    show (read? true inner.toJson).bind (some <| group ·) = _
    rw [ih he]
    rfl
  | call function argument ih =>
    rw [toJson, read?]
    show ((AngleFunction.ofJson? (.string function.tag)).bind fun f =>
      (read? true argument.toJson).bind fun a => some (call f a)) = _
    rw [AngleFunction.ofJson?_tag, ih he]
    rfl

end Expr

/-! ## Formulas as text -/

open Json (Fits)

theorem fits_any_unitMember (unit : Option String) : ∀ m ∈ unitMember unit, Fits .any m.2 := by
  cases unit with
  | none => exact List.forall_mem_nil _
  | some unit => exact List.forall_mem_singleton.2 rfl

theorem Quantity.fits_any_toJson (q : Quantity) : Fits .any q.toJson :=
  ⟨rfl, ⟨_, rfl, rfl⟩, Json.fitMembers_any (fits_any_unitMember q.unit)⟩

namespace Expr

theorem fits_any_toJsons {terms : List Expr} (h : ∀ e ∈ terms, Fits .any e.toJson) :
    ∀ item ∈ toJsons terms, Fits .any item := by
  induction terms with
  | nil => exact List.forall_mem_nil _
  | cons e terms ih =>
    obtain ⟨hhead, htail⟩ := List.forall_mem_cons.1 h
    exact List.forall_mem_cons.2 ⟨hhead, ih htail⟩

theorem fits_any_toJson (e : Expr) : Fits .any e.toJson := by
  induction e with
  | literal value unit =>
    exact ⟨rfl, ⟨_, rfl, rfl⟩, ⟨_, rfl, Json.fits_any_ofFloat value⟩,
      Json.fitMembers_any (fits_any_unitMember unit)⟩
  | quantity q =>
    exact ⟨rfl, ⟨_, rfl, rfl⟩, ⟨_, rfl, rfl⟩, Json.fitMembers_any (fits_any_unitMember q.unit)⟩
  | sum terms ih =>
    exact ⟨rfl, ⟨_, rfl, rfl⟩, ⟨_, rfl, Json.fits_any_array (fits_any_toJsons ih)⟩, rfl⟩
  | product factors ih =>
    exact ⟨rfl, ⟨_, rfl, rfl⟩, ⟨_, rfl, Json.fits_any_array (fits_any_toJsons ih)⟩, rfl⟩
  | difference left right ihleft ihright =>
    exact ⟨rfl, ⟨_, rfl, rfl⟩, ⟨_, rfl, ihleft⟩, ⟨_, rfl, ihright⟩, rfl⟩
  | quotient left right ihleft ihright =>
    exact ⟨rfl, ⟨_, rfl, rfl⟩, ⟨_, rfl, ihleft⟩, ⟨_, rfl, ihright⟩, rfl⟩
  | sqrt operand ih => exact ⟨rfl, ⟨_, rfl, rfl⟩, ⟨_, rfl, ih⟩, rfl⟩
  | power base exponent ih =>
    have hexponent : Number.isFinite (Number.ofInt exponent.toInt) = true := by
      have hlow := exponent.le_toInt
      have hhigh := exponent.toInt_lt
      exact Number.isFinite_ofInt (Nat.lt_of_le_of_lt (m := 2 ^ 31) (by omega) (by decide))
    exact ⟨rfl, ⟨_, rfl, rfl⟩, ⟨_, rfl, ih⟩, ⟨_, rfl, hexponent, rfl⟩, rfl⟩
  | group inner ih => exact ⟨rfl, ⟨_, rfl, rfl⟩, ⟨_, rfl, ih⟩, rfl⟩
  | call function argument ih =>
    exact ⟨rfl, ⟨_, rfl, rfl⟩, ⟨_, rfl, rfl⟩, ⟨_, rfl, ih⟩, rfl⟩

end Expr

end Stepwise
