import Mathlib.Data.List.Basic
import Stepwise.Proofs.Session.Edit

/-!
# What a button leaves of a session

A button adds the items that a list lacks one by one, and looks for each in the list as it
has grown so far. So an item that the button repeats is added at its first occurrence, and
one that was there is not added at all:

> `isCompletion_iff`: what is added are the missing items, each once, in the order of their
> first occurrence, and nothing else is a list of that kind.

One button pressed behind another goes on with the list that the first one left, as if its
items had followed those of the first (`addMissing_append`).
-/

namespace Stepwise

/-- The edits of two buttons in one: the values of the second are laid over those of the
first, and its catalogs and hints follow theirs. -/
def Button.followedBy (b b' : Button) : Button where
  text := b.text
  set := b.set.insertAll b'.set.entries
  libraries := b.libraries ++ b'.libraries
  hints := b.hints ++ b'.hints
  primary := b.primary

namespace Session

/-! ## Lists completed -/

/-- A list that goes on as another one and then holds the items that this lacks, each once
and in the order of their first occurrence. -/
def IsCompletion (list items completed : List String) : Prop :=
  ∃ added, completed = list ++ added ∧ (∀ x, x ∈ added ↔ x ∈ items ∧ x ∉ list) ∧
    added.Pairwise fun x y => items.idxOf x < items.idxOf y

/-- An item in front moves the places of all others alike. -/
theorem pairwise_idxOf_cons {x : String} {items added : List String} (hx : x ∉ added)
    (h : added.Pairwise fun y z => items.idxOf y < items.idxOf z) :
    added.Pairwise fun y z => (x :: items).idxOf y < (x :: items).idxOf z := by
  refine h.imp_of_mem fun {y z} hy hz hlt => ?_
  have hne : ∀ w ∈ added, x ≠ w := fun w hw heq => hx (heq ▸ hw)
  rw [List.idxOf_cons_ne _ (hne y hy), List.idxOf_cons_ne _ (hne z hz)]
  exact Nat.succ_lt_succ hlt

theorem nodup_of_pairwise_idxOf {items added : List String}
    (h : added.Pairwise fun x y => items.idxOf x < items.idxOf y) : added.Nodup := by
  refine h.imp fun {x y} hlt heq => ?_
  subst heq
  exact Nat.lt_irrefl _ hlt

theorem isCompletion_addMissing (list items : List String) :
    IsCompletion list items (addMissing list items) := by
  induction items generalizing list with
  | nil => exact ⟨[], (List.append_nil _).symm, by simp, .nil⟩
  | cons x items ih =>
    rw [addMissing_cons]
    by_cases hx : x ∈ list
    · rw [if_pos (List.contains_iff_mem.2 hx)]
      obtain ⟨added, heq, hmem, hsorted⟩ := ih list
      refine ⟨added, heq, fun y => ?_, ?_⟩
      · rw [hmem, List.mem_cons]
        exact ⟨fun h => ⟨.inr h.1, h.2⟩,
          fun h => ⟨h.1.resolve_left fun heq => h.2 (heq ▸ hx), h.2⟩⟩
      · exact pairwise_idxOf_cons (fun hadded => ((hmem x).1 hadded).2 hx) hsorted
    · rw [if_neg (mt List.contains_iff_mem.1 hx)]
      -- The item is there from now on, so the rest does not add it again.
      obtain ⟨added, heq, hmem, hsorted⟩ := ih (list ++ [x])
      have hfresh : x ∉ added := fun hadded =>
        ((hmem x).1 hadded).2 (List.mem_append_right _ (List.mem_singleton.2 rfl))
      refine ⟨x :: added, ?_, fun y => ?_, List.pairwise_cons.2 ⟨fun y hy => ?_, ?_⟩⟩
      · rw [heq, List.append_assoc]
        rfl
      · rw [List.mem_cons, hmem, List.mem_cons, List.mem_append, List.mem_singleton]
        by_cases hy : y = x
        · subst hy
          simp [hx]
        · simp [hy]
      · have hne : x ≠ y := fun heq => hfresh (heq ▸ hy)
        rw [List.idxOf_cons_self, List.idxOf_cons_ne _ hne]
        exact Nat.succ_pos _
      · exact pairwise_idxOf_cons hfresh hsorted

/-- **A list has one completion**, and that is what is left when the missing is added. -/
theorem isCompletion_iff {list items completed : List String} :
    IsCompletion list items completed ↔ addMissing list items = completed := by
  constructor
  · rintro ⟨added, rfl, hmem, hsorted⟩
    obtain ⟨added', heq, hmem', hsorted'⟩ := isCompletion_addMissing list items
    have hperm : added'.Perm added := by
      rw [List.perm_ext_iff_of_nodup (nodup_of_pairwise_idxOf hsorted')
        (nodup_of_pairwise_idxOf hsorted)]
      intro x
      rw [hmem, hmem']
    rw [heq, hperm.eq_of_pairwise (fun x y _ _ hlt hgt => absurd hgt (Nat.lt_asymm hlt))
      hsorted' hsorted]
  · rintro rfl
    exact isCompletion_addMissing list items

/-- What is added repeats nothing, neither of the list nor of itself. -/
theorem nodup_addMissing_iff {list items : List String} :
    (addMissing list items).Nodup ↔ list.Nodup := by
  obtain ⟨added, heq, hmem, hsorted⟩ := isCompletion_addMissing list items
  rw [heq, List.nodup_append]
  constructor
  · exact And.left
  · refine fun hlist => ⟨hlist, nodup_of_pairwise_idxOf hsorted, ?_⟩
    rintro x hx y hy rfl
    exact ((hmem x).1 hy).2 hx

/-- Items that follow others are added to what these have left. -/
theorem addMissing_append (list items items' : List String) :
    addMissing list (items ++ items') = addMissing (addMissing list items) items' :=
  List.foldl_append

/-! ## One button and two -/

/-- Values laid over others in two rounds are laid over them in one. -/
theorem insertAll_insertAll_entries (b set set' : Bindings) :
    b.insertAll (set.insertAll set'.entries).entries =
      (b.insertAll set.entries).insertAll set'.entries := by
  refine Bindings.ext_get? fun name => ?_
  simp only [Bindings.get?_insertAll_entries, Option.or_assoc]

theorem apply_followedBy (s : Session) (b b' : Button) :
    s.apply (b.followedBy b') = (s.apply b).apply b' := by
  unfold apply Button.followedBy
  dsimp only
  rw [addMissing_append, addMissing_append, insertAll_insertAll_entries]

/-- **What a button does to a session**, whatever either of them repeats. The catalogs and
the hints stay as they are and are completed by those of the button, so they repeat
something exactly if they did before. The values that the button sets are the new ones, and
all others stay. Pressed again the button changes nothing more, and pressing another one
behind it is pressing the two in one. -/
theorem apply_completes (s : Session) (b b' : Button) :
    (∀ l, IsCompletion s.libraries b.libraries l ↔ (s.apply b).libraries = l) ∧
    (∀ l, IsCompletion s.hints b.hints l ↔ (s.apply b).hints = l) ∧
    ((s.apply b).libraries.Nodup ↔ s.libraries.Nodup) ∧
    ((s.apply b).hints.Nodup ↔ s.hints.Nodup) ∧
    (∀ name, (s.apply b).values.get? name = (b.set.get? name).or (s.values.get? name)) ∧
    (s.apply b).apply b = s.apply b ∧
    (s.apply b).apply b' = s.apply (b.followedBy b') ∧
    ∀ name, (b.followedBy b').set.get? name = (b'.set.get? name).or (b.set.get? name) := by
  refine ⟨fun _ => isCompletion_iff, fun _ => isCompletion_iff, nodup_addMissing_iff,
    nodup_addMissing_iff, ?_, apply_apply s b, (apply_followedBy s b b').symm, ?_⟩
  · exact Bindings.get?_insertAll_entries s.values b.set
  · exact Bindings.get?_insertAll_entries b.set b'.set

/-- Repetitions of the session stay, and those of the button are added once. -/
example : (apply ⟨["slopes", "slopes"], [], .empty⟩
    { text := "", libraries := ["kinematics", "slopes", "kinematics", "unit-circle"] }).libraries =
      ["slopes", "slopes", "kinematics", "unit-circle"] := by decide

end Session

end Stepwise
