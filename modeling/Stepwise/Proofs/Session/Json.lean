import Stepwise.Proofs.Json.Basic
import Stepwise.Proofs.Json.Text
import Stepwise.Session.Json

/-!
# Buttons written and read back

A button leaves out what it leaves empty, and what is missing is read as empty, so the
two agree:

> `reads_toJson`: a button with finite values is read back from its JSON.
-/

namespace Stepwise

theorem Bindings.eq_empty {b : Bindings} (h : b.isEmpty = true) : b = .empty :=
  Bindings.ext (List.isEmpty_iff.1 h)

namespace Button

/-- A button that sets no infinity and nothing that is no number. -/
def IsFinite (b : Button) : Prop := ∀ entry ∈ b.set.entries, Number.isFinite entry.2 = true

instance (b : Button) : Decidable b.IsFinite :=
  inferInstanceAs (Decidable (∀ entry ∈ b.set.entries, Number.isFinite entry.2 = true))

/-- A member of a record, unless it is left out. -/
def memberUnless (missing : Bool) (key : String) (value : Json) : List (String × Json) :=
  if missing then [] else [(key, value)]

/-- The members of a button. -/
def members (b : Button) : List (String × Json) :=
  [("text", .string b.text)] ++
    memberUnless b.set.isEmpty "set" (.ofBindings b.set) ++
    memberUnless b.libraries.isEmpty "libraries" (.ofTexts b.libraries) ++
    memberUnless b.hints.isEmpty "hints" (.ofTexts b.hints) ++
    memberUnless (!b.primary) "primary" (.bool true)

theorem toJson_eq (b : Button) : b.toJson = .object b.members := by
  unfold toJson members memberUnless
  cases b.primary with
  | true => rfl
  | false => rfl

theorem forall_mem_memberUnless {missing : Bool} {key : String} {value : Json}
    {P : String × Json → Prop} (h : P (key, value)) : ∀ m ∈ memberUnless missing key value, P m := by
  cases missing with
  | true => exact List.forall_mem_nil _
  | false => exact List.forall_mem_singleton.2 h

theorem names_memberUnless (missing : Bool) (key : String) (value : Json) :
    ((memberUnless missing key value).map (·.1)).Sublist [key] := by
  cases missing with
  | true => exact List.nil_sublist _
  | false => exact .refl _

theorem find?_memberUnless (missing : Bool) (key : String) (value : Json) (name : String) :
    (memberUnless missing key value).find? (·.1 == name) =
      if missing then none else if key == name then some (key, value) else none := by
  cases missing with
  | true => rfl
  | false => exact List.find?_singleton

/-- What holds of every member that a button may have holds of those that it has. -/
theorem forall_mem_members {b : Button} {P : String × Json → Prop}
    (htext : P ("text", .string b.text)) (hset : P ("set", Json.ofBindings b.set))
    (hlibraries : P ("libraries", .ofTexts b.libraries)) (hhints : P ("hints", .ofTexts b.hints))
    (hprimary : P ("primary", .bool true)) : ∀ m ∈ b.members, P m := by
  unfold members
  simp only [List.forall_mem_append]
  exact ⟨⟨⟨⟨List.forall_mem_singleton.2 htext, forall_mem_memberUnless hset⟩,
    forall_mem_memberUnless hlibraries⟩, forall_mem_memberUnless hhints⟩,
    forall_mem_memberUnless hprimary⟩

/-- The members of a button stand in the order of its fields. -/
theorem names_members (b : Button) :
    (b.members.map (·.1)).Sublist ["text", "set", "libraries", "hints", "primary"] := by
  unfold members
  simp only [List.map_append]
  exact ((((List.Sublist.refl ["text"]).append (names_memberUnless _ _ _)).append
    (names_memberUnless _ _ _)).append (names_memberUnless _ _ _)).append (names_memberUnless _ _ _)

/-- A member is found exactly if it was not left out. -/
theorem find?_members (b : Button) :
    b.members.find? (·.1 == "set") =
      (if b.set.isEmpty then none else some ("set", Json.ofBindings b.set)) ∧
    b.members.find? (·.1 == "libraries") =
      (if b.libraries.isEmpty then none else some ("libraries", .ofTexts b.libraries)) ∧
    b.members.find? (·.1 == "hints") =
      (if b.hints.isEmpty then none else some ("hints", .ofTexts b.hints)) ∧
    b.members.find? (·.1 == "primary") =
      (if !b.primary then none else some ("primary", .bool true)) := by
  unfold members
  simp only [List.find?_append, find?_memberUnless, List.find?_singleton, String.reduceBEq,
    Bool.false_eq_true, if_false, if_true, ite_self, Option.or_none, Option.none_or, and_self]

/-- **A button with finite values is read back.** -/
theorem reads_toJson {b : Button} (hb : b.IsFinite) : ofJson? b.toJson = some b := by
  obtain ⟨hset, hlibraries, hhints, hprimary⟩ := b.find?_members
  have hset' : (Json.object b.members).optional 1 "set" Json.bindings? .empty =
      some b.set :=
    Json.optional_of_find? hset (fun h => (Bindings.eq_empty h).symm)
      fun _ => Json.bindings?_ofBindings hb
  have hlibraries' : (Json.object b.members).optional 2 "libraries" Json.texts? [] =
      some b.libraries :=
    Json.optional_of_find? hlibraries (fun h => (List.isEmpty_iff.1 h).symm)
      fun _ => Json.texts?_ofTexts b.libraries
  have hhints' : (Json.object b.members).optional 3 "hints" Json.texts? [] =
      some b.hints :=
    Json.optional_of_find? hhints (fun h => (List.isEmpty_iff.1 h).symm)
      fun _ => Json.texts?_ofTexts b.hints
  have hprimary' : (Json.object b.members).optional 4 "primary" Json.bool? false =
      some b.primary := by
    refine Json.optional_of_find? hprimary ?_ ?_
    · intro h
      rw [Bool.not_eq_true'] at h
      exact h.symm
    · intro h
      rw [Bool.not_eq_false'] at h
      rw [h]
      rfl
  rw [toJson_eq]
  unfold ofJson?
  rw [hset', hlibraries', hhints', hprimary']
  rfl

/-- The text of every button is JSON. -/
theorem fits_any_toJson (b : Button) : Json.Fits .any b.toJson := by
  rw [toJson_eq]
  refine Json.fits_any_object (forall_mem_members rfl ?_ ?_ ?_ rfl)
  · exact Json.fits_any_ofBindings b.set
  · exact Json.fits_any_ofTexts b.libraries
  · exact Json.fits_any_ofTexts b.hints

theorem depth_toJson (b : Button) : b.toJson.depth ≤ 2 := by
  rw [toJson_eq]
  exact Nat.succ_le_succ (Json.depthOfMembers_le (forall_mem_members (Nat.zero_le 1)
    (Json.depth_ofBindings b.set) (Json.depth_ofTexts b.libraries) (Json.depth_ofTexts b.hints)
    (Nat.zero_le 1)))

end Button

end Stepwise
