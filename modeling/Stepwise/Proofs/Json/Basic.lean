import Stepwise.Json.Basic
import Stepwise.Proofs.Bindings

/-!
# Values read back

What is written item by item is read item by item, and a field that is left out when it
is what a missing one stands for is read as that. So a value is read back if its parts
are:

> `bindings?_ofBindings`: a table of finite numbers is read back.
-/

namespace Stepwise

/-! ## Lists read item by item -/

/-- What is written item by item is read item by item. -/
theorem mapM_map_eq_some {α β : Type} {write : α → β} {read : β → Option α} {l : List α}
    (h : ∀ a ∈ l, read (write a) = some a) : (l.map write).mapM read = some l := by
  induction l with
  | nil => rfl
  | cons a l ih =>
    obtain ⟨hhead, htail⟩ := List.forall_mem_cons.1 h
    rw [List.map_cons, List.mapM_cons, hhead, ih htail]
    rfl

namespace Json

/-! ## Numbers, lists and tables -/

theorem number?_ofFloat {x : Float} (hx : Number.isFinite x = true) :
    (ofFloat x).number? = some x := by
  unfold ofFloat
  rw [if_pos hx]
  rfl

theorem texts?_ofTexts (texts : List String) : (ofTexts texts).texts? = some texts :=
  mapM_map_eq_some fun _ _ => rfl

/-- A list is read back if each of its items is. -/
theorem items?_map {α : Type} {write : α → Json} {read : Json → Option α} {l : List α}
    (h : ∀ a ∈ l, read (write a) = some a) :
    (array (l.map write)).items?.bind (·.mapM read) = some l :=
  mapM_map_eq_some h

/-- **A table of finite numbers is read back.** -/
theorem bindings?_ofBindings {b : Bindings}
    (hb : ∀ entry ∈ b.entries, Number.isFinite entry.2 = true) :
    (ofBindings b).bindings? = some b := by
  have hentries : (b.entries.map fun entry => (entry.1, ofFloat entry.2)).mapM
      (fun m => (number? m.2).map (m.1, ·)) = some b.entries := by
    refine mapM_map_eq_some fun entry hentry => ?_
    show ((ofFloat entry.2).number?).map _ = _
    rw [number?_ofFloat (hb entry hentry)]
    rfl
  calc (ofBindings b).bindings? = (some b.entries).map Bindings.ofList :=
        congrArg (Option.map Bindings.ofList) hentries
    _ = some b := congrArg some b.ofList_entries

/-! ## Records that are objects -/

/-- A field that an object may lack is looked up by its name. -/
theorem optional_object {α : Type} (members : List (String × Json)) (position : Nat)
    (key : String) (read : Json → Option α) (absent : α) :
    optional (.object members) position key read absent =
      match members.find? (·.1 == key) with
      | none => some absent
      | some m => read m.2 := by
  unfold optional field?
  dsimp only
  split
  · next hnone =>
    split at hnone
    · cases hnone
    · next hfind => rw [hfind]
  · next hsome =>
    split at hsome
    · next hfind =>
      rw [hfind]
      cases hsome
      rfl
    · cases hsome

/-- A field that is left out when it is what a missing one stands for is read back. -/
theorem optional_of_find? {α : Type} {members : List (String × Json)} {position : Nat}
    {key : String} {read : Json → Option α} {absent result : α} {missing : Bool} {value : Json}
    (hfind : members.find? (·.1 == key) = if missing then none else some (key, value))
    (habsent : missing = true → absent = result)
    (hread : missing = false → read value = some result) :
    optional (.object members) position key read absent = some result := by
  rw [optional_object, hfind]
  cases missing with
  | true => exact congrArg some (habsent rfl)
  | false => exact hread rfl

end Json

end Stepwise
