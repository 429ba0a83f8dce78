import Stepwise.Proofs.Session.RoundTrip

/-!
# Lines edited by buttons

A button that is pressed twice has done its work the first time (`apply_apply`), and
a session that is read has writable names. What an edit can lose is a value that has
no text: digits beyond the range of doubles are read as an infinity, and the text of
an infinity does not read.

> `editLine_reads_iff`: an edited line says what the edit says exactly if every
> value of the line that the button leaves is finite.
-/

namespace Stepwise

/-- A button that a line can say: its names are names of a line, its values finite. -/
structure Button.Writable (b : Button) : Prop where
  libraries : ∀ name ∈ b.libraries, IsName name
  hints : ∀ name ∈ b.hints, IsName name
  names : ∀ entry ∈ b.set.entries, IsName entry.1
  finite : ∀ entry ∈ b.set.entries, Number.isFinite entry.2 = true

theorem Button.writable_text (text : String) : Button.Writable { text } :=
  ⟨List.forall_mem_nil _, List.forall_mem_nil _, List.forall_mem_nil _, List.forall_mem_nil _⟩

theorem Button.writable_setting {name : String} {value : Float} (text : String)
    (hname : IsName name) (hvalue : Number.isFinite value = true) :
    (Button.setting text name value).Writable :=
  ⟨List.forall_mem_nil _, List.forall_mem_nil _, List.forall_mem_singleton.2 hname,
    List.forall_mem_singleton.2 hvalue⟩

theorem Button.writable_importing {name : String} (text : String) (hname : IsName name) :
    (Button.importing text name).Writable :=
  ⟨List.forall_mem_singleton.2 hname, List.forall_mem_nil _, List.forall_mem_nil _,
    List.forall_mem_nil _⟩

theorem Button.writable_activating {name : String} (text : String) (hname : IsName name) :
    (Button.activating text name).Writable :=
  ⟨List.forall_mem_nil _, List.forall_mem_singleton.2 hname, List.forall_mem_nil _,
    List.forall_mem_nil _⟩

theorem Button.Writable.recommended {b : Button} (h : b.Writable) : b.recommended.Writable :=
  ⟨h.libraries, h.hints, h.names, h.finite⟩

namespace Session

/-! ## Adding what is missing -/

/-- One step of `addMissing`. -/
theorem addMissing_cons (list : List String) (x : String) (items : List String) :
    addMissing list (x :: items) =
      addMissing (if list.contains x then list else list ++ [x]) items := rfl

theorem forall_mem_addMissing {p : String → Prop} {list items : List String}
    (hlist : ∀ x ∈ list, p x) (hitems : ∀ x ∈ items, p x) : ∀ x ∈ addMissing list items, p x := by
  induction items generalizing list with
  | nil => exact hlist
  | cons x items ih =>
    obtain ⟨hhead, htail⟩ := List.forall_mem_cons.1 hitems
    rw [addMissing_cons]
    refine ih ?_ htail
    split
    · exact hlist
    · intro y hy
      rcases List.mem_append.1 hy with hy | hy
      · exact hlist y hy
      · rw [List.mem_singleton.1 hy]
        exact hhead

/-- What is there stays, and what is added is there. -/
theorem subset_addMissing (list items : List String) :
    list ⊆ addMissing list items ∧ items ⊆ addMissing list items := by
  induction items generalizing list with
  | nil => exact ⟨List.Subset.refl _, List.nil_subset _⟩
  | cons x items ih =>
    rw [addMissing_cons]
    obtain ⟨hlist, hitems⟩ := ih (if list.contains x then list else list ++ [x])
    split at hlist
    · next hmem =>
      rw [if_pos hmem] at hitems ⊢
      exact ⟨hlist, List.cons_subset.2 ⟨hlist (List.contains_iff_mem.1 hmem), hitems⟩⟩
    · next hmem =>
      rw [if_neg hmem] at hitems ⊢
      obtain ⟨hlist, hx⟩ := List.append_subset.1 hlist
      exact ⟨hlist, List.cons_subset.2 ⟨hx (List.mem_singleton.2 rfl), hitems⟩⟩

theorem mem_addMissing_iff {list items : List String} {x : String} :
    x ∈ addMissing list items ↔ x ∈ list ∨ x ∈ items := by
  constructor
  · exact forall_mem_addMissing (p := fun x => x ∈ list ∨ x ∈ items) (fun _ => .inl)
      (fun _ => .inr) x
  · obtain ⟨hlist, hitems⟩ := subset_addMissing list items
    rintro (h | h)
    · exact hlist h
    · exact hitems h

/-- Where nothing is missing, nothing is added. -/
theorem addMissing_of_subset {list items : List String} (h : items ⊆ list) :
    addMissing list items = list := by
  induction items with
  | nil => rfl
  | cons x items ih =>
    obtain ⟨hx, hitems⟩ := List.cons_subset.1 h
    rw [addMissing_cons, if_pos (List.contains_iff_mem.2 hx)]
    exact ih hitems

theorem addMissing_addMissing (list items : List String) :
    addMissing (addMissing list items) items = addMissing list items :=
  addMissing_of_subset (subset_addMissing list items).2

/-- **Pressing a button twice is pressing it once.** -/
theorem apply_apply (s : Session) (b : Button) : (s.apply b).apply b = s.apply b := by
  unfold apply
  dsimp only
  rw [addMissing_addMissing, addMissing_addMissing, Bindings.insertAll_entries_idem]

/-! ## What an edit leaves writable -/

theorem named_read (line : String) : (read line).session.Named :=
  ⟨fun _ => isName_of_mem_libraries, fun _ => isName_of_mem_hints, fun _ => isName_of_mem_values⟩

theorem Named.apply {s : Session} (hs : s.Named) {b : Button} (hb : b.Writable) :
    (s.apply b).Named := by
  refine ⟨?_, ?_, ?_⟩
  · exact forall_mem_addMissing hs.libraries hb.libraries
  · exact forall_mem_addMissing hs.hints hb.hints
  · exact Bindings.forall_mem_insertAll hs.values hb.names

/-- What an edit leaves of the values of a session is finite. -/
def LeavesFinite (s : Session) (b : Button) : Prop :=
  ∀ name value, s.values.get? name = some value →
    b.set.contains name = true ∨ Number.isFinite value = true

/-- An edited session is writable exactly if what the edit leaves is finite. -/
theorem writable_apply_iff {s : Session} (hs : s.Named) {b : Button} (hb : b.Writable) :
    (s.apply b).Writable ↔ s.LeavesFinite b := by
  have hget := Bindings.get?_insertAll_entries s.values b.set
  constructor
  · intro hwritable name value hvalue
    -- A value that the button does not set is still there.
    cases hset : b.set.get? name with
    | some v => exact .inl (Bindings.contains_iff.2 ⟨v, hset⟩)
    | none =>
      refine .inr (hwritable.finite (name, value) (Bindings.mem_entries_iff.2 ?_))
      show (s.values.insertAll b.set.entries).get? name = some value
      rw [hget, hset]
      exact hvalue
  · intro hleaves
    refine ⟨hs.apply hb, ?_⟩
    rintro ⟨name, value⟩ hentry
    have hvalue : (s.values.insertAll b.set.entries).get? name = some value :=
      Bindings.mem_entries_iff.1 hentry
    rw [hget] at hvalue
    rcases Option.or_eq_some_iff.1 hvalue with hset | ⟨hnone, hvalue⟩
    · exact hb.finite (name, value) (Bindings.mem_entries_iff.2 hset)
    · rcases hleaves name value hvalue with hcontains | hfinite
      · rw [Bindings.contains_iff, hnone] at hcontains
        obtain ⟨v, hv⟩ := hcontains
        cases hv
      · exact hfinite

/-- A button without edits leaves all values. -/
theorem leavesFinite_text {s : Session} (text : String) : s.LeavesFinite { text } ↔
    ∀ name value, s.values.get? name = some value → Number.isFinite value = true := by
  constructor
  · intro h name value hvalue
    rcases h name value hvalue with hcontains | hfinite
    · cases hcontains
    · exact hfinite
  · intro h name value hvalue
    exact .inr (h name value hvalue)

/-! ## Edited lines -/

theorem readStrict_eq_ok_iff {line : String} {s : Session} :
    readStrict line = .ok s ↔ (read line).faults = [] ∧ (read line).session = s := by
  unfold readStrict
  dsimp only
  split
  · next hempty =>
    rw [List.isEmpty_iff] at hempty
    rw [Except.ok.injEq, hempty]
    exact ⟨fun h => ⟨rfl, h⟩, And.right⟩
  · next hne =>
    rw [List.isEmpty_iff] at hne
    constructor
    · intro h
      cases h
    · intro h
      exact absurd h.1 hne

/-- An edited line says what the edit says exactly if the edited session is writable. -/
theorem readStrict_editLine_iff {line : String} {b : Button} :
    readStrict (editLine line b) = .ok ((read line).session.apply b) ↔
      ((read line).session.apply b).Writable :=
  readStrict_eq_ok_iff.trans read_line_eq_iff

/-- Then the same edit changes it no more. -/
theorem editLine_editLine {line : String} {b : Button}
    (h : ((read line).session.apply b).Writable) :
    editLine (editLine line b) b = editLine line b := by
  show ((read ((read line).session.apply b).line).session.apply b).line = _
  rw [read_line h, apply_apply]
  rfl

/-- A line of finite values reads as the edited session after an edit that can be written. -/
theorem read_editLine {line : String} {b : Button} (hb : b.Writable)
    (hfinite : ∀ entry ∈ (read line).session.values.entries, Number.isFinite entry.2 = true) :
    read (editLine line b) = ⟨(read line).session.apply b, []⟩ := by
  refine read_line ((writable_apply_iff (named_read line) hb).2 fun name value hvalue => .inr ?_)
  exact hfinite (name, value) (Bindings.mem_entries_iff.2 hvalue)

/-- **An edited line says what the edit says**, and the same edit changes it no more,
exactly if the values that the button leaves are finite. Without an edit a line that
is written anew says the same exactly if all its values are finite. -/
theorem editLine_reads_iff (line : String) (b : Button) (hb : b.Writable) :
    ((readStrict (editLine line b) = .ok ((read line).session.apply b) ∧
        editLine (editLine line b) b = editLine line b) ↔
      (read line).session.LeavesFinite b) ∧
    ∀ text, readStrict (editLine line { text }) = .ok (read line).session ↔
      ∀ name value, (read line).session.values.get? name = some value →
        Number.isFinite value = true := by
  constructor
  · rw [← writable_apply_iff (named_read line) hb, ← readStrict_editLine_iff]
    exact ⟨And.left, fun h => ⟨h, editLine_editLine (readStrict_editLine_iff.1 h)⟩⟩
  · intro text
    rw [← leavesFinite_text text,
      ← writable_apply_iff (named_read line) (Button.writable_text text)]
    exact readStrict_editLine_iff (b := { text })

/-- A line with a malformed entry, which the edit drops. -/
theorem editLine_reads_iff_malformed :
    readStrict (editLine "x=1 lost y=2" (.setting "Change x" "x" 3.0)) =
      .ok ((read "x=1 lost y=2").session.apply (.setting "Change x" "x" 3.0)) := by
  have hset : (Button.setting "Change x" "x" 3.0).set.entries = [("x", 3.0)] := rfl
  have hb : Button.Writable (.setting "Change x" "x" 3.0) := by
    refine ⟨List.forall_mem_nil _, List.forall_mem_nil _, ?_, ?_⟩
    · rw [hset, List.forall_mem_singleton]
      exact List.forall_mem_singleton.2 rfl
    · rw [hset, List.forall_mem_singleton]
      decide +kernel
  have hvalues : (read "x=1 lost y=2").session.values.entries.all (Number.isFinite ·.2) = true := by
    decide +kernel
  refine ((editLine_reads_iff "x=1 lost y=2" (.setting "Change x" "x" 3.0) hb).1.2 ?_).1
  intro name value hvalue
  have hmem := Bindings.mem_entries_iff.2 hvalue
  exact .inr (List.all_eq_true.1 hvalues (name, value) hmem)

/-! ## A value that has no text -/

/-- Digits beyond the range of doubles bind an infinity. -/
theorem readsAs_overflow {name digits : List Char} (hname : ∀ c ∈ name, isNameChar c = true)
    (hdigits : ∀ c ∈ digits, c.isDigit = true)
    (hlarge : Decimal.tenTo 400 ≤ Decimal.ofDigits digits) :
    Cursor.ReadsAs (name ++ '=' :: digits)
      (.binding (String.ofList name) (Binary.infinity false)) := by
  have hvalue := Number.ofText?_of_large hdigits hlarge
  have hnumber : ∀ c ∈ digits, isNumberChar c = true := by
    intro c hc
    unfold isNumberChar
    rw [hdigits c hc]
    rfl
  have hne : digits ≠ [] := by
    rintro rfl
    cases hvalue
  have hreads := Cursor.readsAs_value hname hnumber hne
  unfold Cursor.valueEntry at hreads
  rwa [hvalue] at hreads

/-- A line whose first value has more digits than a double has room for. -/
def overflowing : String :=
  String.ofList (['x', '=', '1'] ++ List.replicate 400 '0' ++ [' ', 'y', '=', '2'])

theorem read_overflowing : (read overflowing).session =
    ⟨[], [], .ofList [("x", Binary.infinity false), ("y", 2.0)]⟩ := by
  have hdigits : ∀ c ∈ '1' :: List.replicate 400 '0', c.isDigit = true := by
    refine List.forall_mem_cons.2 ⟨rfl, fun c hc => ?_⟩
    rw [List.eq_of_mem_replicate hc]
    rfl
  have hlarge : Decimal.tenTo 400 ≤ Decimal.ofDigits ('1' :: List.replicate 400 '0') := by
    decide +kernel
  have hvalue : Cursor.valueEntry ['y'] ['2'] = .binding "y" 2.0 := by decide +kernel
  let words : List (List Char × LineEntry) :=
    [(['x'] ++ '=' :: '1' :: List.replicate 400 '0', .binding "x" (Binary.infinity false)),
      (['y'] ++ '=' :: ['2'], .binding "y" 2.0)]
  have hreads : ∀ w ∈ words, Cursor.ReadsAs w.1 w.2 := by
    refine List.forall_mem_cons.2 ⟨?_, List.forall_mem_singleton.2 ?_⟩
    · exact readsAs_overflow (List.forall_mem_singleton.2 rfl) hdigits hlarge
    · rw [← hvalue]
      exact Cursor.readsAs_value (List.forall_mem_singleton.2 rfl) (List.forall_mem_singleton.2 rfl)
        (List.cons_ne_nil _ _)
  have hline : overflowing.toList = [' '].intercalate (words.map (·.1)) := by
    unfold overflowing
    rw [String.toList_ofList]
    decide +kernel
  have hblank : (words.map (·.1)).all (fun w => !w.isEmpty && w.all (!Text.isBlank ·)) = true := by
    decide +kernel
  simp only [List.all_eq_true, Bool.and_eq_true, Bool.not_eq_true', List.isEmpty_eq_false_iff]
    at hblank
  have hentries : lineEntries overflowing = words.map (·.2) := by
    rw [lineEntries_eq hline hblank]
    exact Cursor.entries_words hreads []
  unfold read
  rw [hentries]
  rfl

/-- **The value is lost**: it is written as a word, and the word does not read. -/
theorem editLine_overflowing :
    editLine overflowing { text := "" } = "x=inf y=2" ∧
    readStrict (editLine overflowing { text := "" }) ≠
      .ok ((read overflowing).session.apply { text := "" }) := by
  constructor
  · unfold editLine
    rw [read_overflowing]
    decide +kernel
  · intro hok
    -- If the text could be read, the value of `x` would be finite.
    have hfinite := (readStrict_editLine_iff.1 hok).finite
    rw [read_overflowing] at hfinite
    have hinfinite : Number.isFinite (Binary.infinity false) = true :=
      hfinite ("x", Binary.infinity false) (Bindings.mem_entries_iff.2 (by decide +kernel))
    revert hinfinite
    decide +kernel

end Session

end Stepwise
