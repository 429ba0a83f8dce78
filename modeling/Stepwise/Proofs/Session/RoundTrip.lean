import Stepwise.Proofs.Session.Reading

/-!
# Sessions written and read back

A line writes the catalogs, then the hints, then the values of a session, each as a
word. Names without signs and blanks, and finite numbers, read as they were written:

> `read_line`: a writable session reads back from its line, and nothing else does.

Every other session fails to: only writable names are ever read, and the text of a
value that is not finite is a fault (`breaks_of_not_isFinite`).
-/

namespace Stepwise

namespace Number

/-- No text of a number has a blank. -/
theorem isBlank_of_mem_text {x : Float} {c : Char} (h : c ∈ (text x).toList) :
    Text.isBlank c = false := by
  by_cases hx : isFinite x = true
  · refine isBlank_of_isNumberChar ?_
    unfold isNumberChar
    rcases forall_mem_text hx c h with hdigit | rfl | rfl
    · rw [hdigit]
      rfl
    · rfl
    · rfl
  · rw [Bool.not_eq_true] at hx
    have hword : (text x).toList.all (fun c => !Text.isBlank c) = true := by
      rcases text_of_not_isFinite hx with htext | htext | htext
      · rw [htext]
        decide
      · rw [htext]
        decide
      · rw [htext]
        decide
    have hc := List.all_eq_true.1 hword c h
    rwa [Bool.not_eq_true'] at hc

theorem isNumberChar_of_mem_text {x : Float} (hx : isFinite x = true) :
    ∀ c ∈ (text x).toList, isNumberChar c = true := by
  intro c hc
  unfold isNumberChar
  rcases forall_mem_text hx c hc with hdigit | rfl | rfl
  · rw [hdigit]
    rfl
  · rfl
  · rfl

end Number

namespace Session

/-- Every name of a session is a name of a line. -/
structure Named (s : Session) : Prop where
  libraries : ∀ name ∈ s.libraries, IsName name
  hints : ∀ name ∈ s.hints, IsName name
  values : ∀ entry ∈ s.values.entries, IsName entry.1

/-- A session that a line can say: its names are names of a line, its values finite. -/
structure Writable (s : Session) : Prop extends Named s where
  finite : ∀ entry ∈ s.values.entries, Number.isFinite entry.2 = true

/-! ## The words of a session -/

/-- The words of a session's line and the entries that they stand for. -/
def words (s : Session) : List (List Char × LineEntry) :=
  s.libraries.map (fun name => ('!' :: name.toList, .library name)) ++
    s.hints.map (fun name => ('@' :: name.toList, .hint name)) ++
      s.values.entries.map fun entry =>
        (entry.1.toList ++ '=' :: (Number.text entry.2).toList, .binding entry.1 entry.2)

theorem forall_mem_words {s : Session} {p : List Char × LineEntry → Prop}
    (hlibraries : ∀ name ∈ s.libraries, p ('!' :: name.toList, .library name))
    (hhints : ∀ name ∈ s.hints, p ('@' :: name.toList, .hint name))
    (hvalues : ∀ entry ∈ s.values.entries,
      p (entry.1.toList ++ '=' :: (Number.text entry.2).toList, .binding entry.1 entry.2)) :
    ∀ w ∈ s.words, p w := by
  intro w hw
  rcases List.mem_append.1 hw with hw | hw
  · rcases List.mem_append.1 hw with hw | hw
    · obtain ⟨name, hname, rfl⟩ := List.mem_map.1 hw
      exact hlibraries name hname
    · obtain ⟨name, hname, rfl⟩ := List.mem_map.1 hw
      exact hhints name hname
  · obtain ⟨entry, hentry, rfl⟩ := List.mem_map.1 hw
    exact hvalues entry hentry

/-- A line is its words between blanks. -/
theorem toList_line (s : Session) : s.line.toList = [' '].intercalate (s.words.map (·.1)) := by
  have htokens : s.tokens.map String.toList = s.words.map (·.1) := by
    unfold tokens words
    simp only [List.map_append, List.map_map]
    congr 1
    · congr 1
      · exact List.map_congr_left fun name _ => String.toList_append
      · exact List.map_congr_left fun name _ => String.toList_append
    · refine List.map_congr_left fun entry _ => ?_
      show (entry.1 ++ "=" ++ Number.text entry.2).toList = _
      rw [String.toList_append, String.toList_append, List.append_assoc]
      rfl
  unfold line
  rw [String.toList_intercalate, htokens]
  rfl

/-- The entries of a session's words describe the session. -/
theorem ofEntries_words (s : Session) : ofEntries (s.words.map (·.2)) = s := by
  obtain ⟨libraries, hints, values⟩ := s
  have hvalues : Bindings.ofList (values.entries.filterMap some) = values := by
    rw [List.filterMap_some, Bindings.ofList_entries]
  have hnone {α β : Type} (l : List α) : l.filterMap (fun _ => (none : Option β)) = [] :=
    List.filterMap_eq_nil_iff.2 fun _ _ => rfl
  unfold ofEntries words
  simp only [List.map_append, List.map_map, List.filterMap_append, List.filterMap_map,
    Function.comp_def, LineEntry.library?, LineEntry.hint?, LineEntry.binding?,
    List.filterMap_some, hnone, List.append_nil, List.nil_append]
  exact congrArg (Session.mk libraries hints) hvalues

theorem faults_words (s : Session) : (s.words.map (·.2)).filterMap LineEntry.fault? = [] := by
  rw [List.filterMap_eq_nil_iff]
  intro e he
  obtain ⟨w, hw, rfl⟩ := List.mem_map.1 he
  exact forall_mem_words (p := fun w => w.2.fault? = none) (fun _ _ => rfl) (fun _ _ => rfl)
    (fun _ _ => rfl) w hw

/-- A word of a session has characters, none of which is blank. -/
theorem Named.word {s : Session} (h : s.Named) :
    ∀ w ∈ s.words, w.1 ≠ [] ∧ ∀ c ∈ w.1, Text.isBlank c = false := by
  refine forall_mem_words ?_ ?_ ?_
  · intro name hname
    refine ⟨List.cons_ne_nil _ _, List.forall_mem_cons.2 ⟨by decide, fun c hc => ?_⟩⟩
    exact isBlank_of_isNameChar (h.libraries name hname c hc)
  · intro name hname
    refine ⟨List.cons_ne_nil _ _, List.forall_mem_cons.2 ⟨by decide, fun c hc => ?_⟩⟩
    exact isBlank_of_isNameChar (h.hints name hname c hc)
  · intro entry hentry
    refine ⟨List.append_ne_nil_of_right_ne_nil _ (List.cons_ne_nil _ _), fun c hc => ?_⟩
    rcases List.mem_append.1 hc with hc | hc
    · exact isBlank_of_isNameChar (h.values entry hentry c hc)
    · rcases List.mem_cons.1 hc with rfl | hc
      · decide
      · exact Number.isBlank_of_mem_text hc

/-- The entries of a line are those of its words. -/
theorem lineEntries_line {s : Session} (h : s.Named) :
    lineEntries s.line = (Cursor.start ([' '].intercalate (s.words.map (·.1)))).entries := by
  refine lineEntries_eq (toList_line s) ?_
  intro cs hcs
  obtain ⟨w, hw, rfl⟩ := List.mem_map.1 hcs
  exact h.word w hw

/-! ## Reading back -/

open Cursor (ReadsAs Breaks)

theorem readsAs_libraryWord {name : String} (h : IsName name) :
    ReadsAs ('!' :: name.toList) (.library name) := by
  have hreads := Cursor.readsAs_library h
  rwa [String.ofList_toList] at hreads

theorem readsAs_hintWord {name : String} (h : IsName name) :
    ReadsAs ('@' :: name.toList) (.hint name) := by
  have hreads := Cursor.readsAs_hint h
  rwa [String.ofList_toList] at hreads

/-- A finite value reads as it was written. -/
theorem readsAs_valueWord {name : String} {x : Float} (hname : IsName name)
    (hx : Number.isFinite x = true) :
    ReadsAs (name.toList ++ '=' :: (Number.text x).toList) (.binding name x) := by
  have htext := Number.ofText?_text hx
  have hne : (Number.text x).toList ≠ [] := by
    intro hnil
    rw [hnil] at htext
    cases htext
  have hreads := Cursor.readsAs_value hname (Number.isNumberChar_of_mem_text hx) hne
  have hentry : Cursor.valueEntry name.toList (Number.text x).toList = .binding name x := by
    unfold Cursor.valueEntry
    rw [htext, String.ofList_toList]
  rwa [hentry] at hreads

/-- A value that is not finite is a fault: its text is a word, and what comes before
the first letter is no number. -/
theorem breaks_of_not_isFinite {name : String} {x : Float} (hname : IsName name)
    (hx : Number.isFinite x = false) :
    Breaks (name.toList ++ '=' :: (Number.text x).toList) := by
  -- The run of digits stops at the letter, so it is empty or a mere sign.
  rcases Number.text_of_not_isFinite hx with htext | htext | htext
  · rw [htext]
    exact Cursor.breaks_value [] ['a', 'N'] hname (List.forall_mem_nil _) rfl rfl rfl
  · rw [htext]
    exact Cursor.breaks_value [] ['n', 'f'] hname (List.forall_mem_nil _) rfl rfl rfl
  · rw [htext]
    exact Cursor.breaks_value ['-'] ['n', 'f'] hname (List.forall_mem_singleton.2 rfl) rfl rfl rfl

/-- **A writable session reads back from its line.** -/
theorem read_line {s : Session} (h : s.Writable) : read s.line = ⟨s, []⟩ := by
  have hreads : ∀ w ∈ s.words, ReadsAs w.1 w.2 := by
    refine forall_mem_words ?_ ?_ ?_
    · exact fun name hname => readsAs_libraryWord (h.libraries name hname)
    · exact fun name hname => readsAs_hintWord (h.hints name hname)
    · exact fun entry hentry => readsAs_valueWord (h.values entry hentry) (h.finite entry hentry)
  have hentries : lineEntries s.line = s.words.map (·.2) := by
    rw [lineEntries_line h.toNamed]
    exact Cursor.entries_words hreads []
  unfold read
  rw [hentries, ofEntries_words, faults_words]

/-- A value that is not finite is a fault of its line. -/
theorem faults_ne_nil {s : Session} (hnamed : s.Named) {entry : String × Float}
    (hentry : entry ∈ s.values.entries) (hx : Number.isFinite entry.2 = false) :
    (read s.line).faults ≠ [] := by
  -- The words before the first broken one read, so the reading gets to it.
  have hwords : ∀ w ∈ s.words, (∃ e, ReadsAs w.1 e) ∨ Breaks w.1 := by
    refine forall_mem_words ?_ ?_ ?_
    · exact fun name hname => .inl ⟨_, readsAs_libraryWord (hnamed.libraries name hname)⟩
    · exact fun name hname => .inl ⟨_, readsAs_hintWord (hnamed.hints name hname)⟩
    · intro e he
      have hname := hnamed.values e he
      cases hfinite : Number.isFinite e.2 with
      | true => exact .inl ⟨_, readsAs_valueWord hname hfinite⟩
      | false => exact .inr (breaks_of_not_isFinite hname hfinite)
  have hbreaks : ∃ w ∈ s.words.map (·.1), Breaks w :=
    ⟨_, List.mem_map.2 ⟨_, List.mem_append_right _ (List.mem_map.2 ⟨entry, hentry, rfl⟩), rfl⟩,
      breaks_of_not_isFinite (hnamed.values entry hentry) hx⟩
  obtain ⟨fault, hfault⟩ := Cursor.exists_fault
    (by
      intro cs hcs
      obtain ⟨w, hw, rfl⟩ := List.mem_map.1 hcs
      exact hwords w hw) hbreaks []
  have hmem : fault ∈ (read s.line).faults := by
    refine List.mem_filterMap.2 ⟨.fault fault, ?_, rfl⟩
    rw [lineEntries_line hnamed]
    exact hfault
  exact List.ne_nil_of_mem hmem

/-! ## Equal sessions -/

/-- Sessions compare equal if their names are equal and their values compare equal. -/
theorem beq_iff {s t : Session} : (s == t) = true ↔
    s.libraries = t.libraries ∧ s.hints = t.hints ∧
      (s.values.entries == t.values.entries) = true := by
  have hbeq : (s == t) = (s.libraries == t.libraries && (s.hints == t.hints &&
      s.values.entries == t.values.entries)) := rfl
  rw [hbeq, Bool.and_eq_true, Bool.and_eq_true, beq_iff_eq, beq_iff_eq]

theorem map_fst_of_beq {l m : List (String × Float)} (h : (l == m) = true) :
    l.map (·.1) = m.map (·.1) := by
  induction l generalizing m with
  | nil =>
    cases m with
    | nil => rfl
    | cons e m => cases h
  | cons d l ih =>
    cases m with
    | nil => cases h
    | cons e m =>
      rw [List.cons_beq_cons, Bool.and_eq_true] at h
      obtain ⟨hhead, htail⟩ := h
      have hname : (d.1 == e.1 && d.2 == e.2) = true := hhead
      rw [Bool.and_eq_true, beq_iff_eq] at hname
      rw [List.map_cons, List.map_cons, hname.1, ih htail]

/-- Finite values compare equal to themselves. -/
theorem beq_self_of_finite {l : List (String × Float)}
    (h : ∀ entry ∈ l, Number.isFinite entry.2 = true) : (l == l) = true := by
  induction l with
  | nil => rfl
  | cons e l ih =>
    obtain ⟨hhead, htail⟩ := List.forall_mem_cons.1 h
    have hentry : (e == e) = (e.1 == e.1 && e.2 == e.2) := rfl
    rw [List.cons_beq_cons, ih htail, hentry, Binary.beq_self (Number.isFinite_iff.1 hhead),
      beq_self_eq_true]
    rfl

/-- A session whose line has no fault and reads back its names is writable. -/
theorem writable_of_read_line {s : Session} (hfaults : (read s.line).faults = [])
    (hlibraries : (read s.line).session.libraries = s.libraries)
    (hhints : (read s.line).session.hints = s.hints)
    (hnames : (read s.line).session.values.names = s.values.names) : s.Writable := by
  -- The names are those that were read, whatever they were written as.
  have hnamed : s.Named := by
    refine ⟨fun name hname => ?_, fun name hname => ?_, fun entry hentry => ?_⟩
    · rw [← hlibraries] at hname
      exact isName_of_mem_libraries hname
    · rw [← hhints] at hname
      exact isName_of_mem_hints hname
    · have hmem : entry.1 ∈ s.values.names := List.mem_map.2 ⟨entry, hentry, rfl⟩
      rw [← hnames] at hmem
      obtain ⟨entry', hentry', heq⟩ := List.mem_map.1 hmem
      rw [← heq]
      exact isName_of_mem_values hentry'
  refine ⟨hnamed, fun entry hentry => ?_⟩
  rw [← Bool.not_eq_false]
  intro hinfinite
  exact faults_ne_nil hnamed hentry hinfinite hfaults

/-- A session is what its line says exactly if it is writable. -/
theorem read_line_eq_iff {s : Session} :
    (read s.line).faults = [] ∧ (read s.line).session = s ↔ s.Writable := by
  constructor
  · rintro ⟨hfaults, hsession⟩
    refine writable_of_read_line hfaults ?_ ?_ ?_
    · rw [hsession]
    · rw [hsession]
    · rw [hsession]
  · intro hwritable
    rw [read_line hwritable]
    exact ⟨rfl, rfl⟩

/-- **The sessions that a line can say**: a session reads back from its line, exactly
or up to the comparison of numbers, if and only if its names consist of name
characters and its values are finite. -/
theorem line_roundTrip (s : Session) :
    ((read s.line).faults = [] ∧ (read s.line).session = s ↔ s.Writable) ∧
    ((read s.line).faults = [] ∧ ((read s.line).session == s) = true ↔ s.Writable) := by
  refine ⟨read_line_eq_iff, ?_⟩
  constructor
  · rintro ⟨hfaults, hsession⟩
    obtain ⟨hlibraries, hhints, hvalues⟩ := beq_iff.1 hsession
    exact writable_of_read_line hfaults hlibraries hhints (map_fst_of_beq hvalues)
  · intro hwritable
    rw [read_line hwritable]
    exact ⟨rfl, beq_iff.2 ⟨rfl, rfl, beq_self_of_finite hwritable.finite⟩⟩

end Session

end Stepwise
