import Mathlib.Logic.Relation
import Stepwise.Proofs.Bindings
import Stepwise.Proofs.Session.Reading

/-!
# The progress of reading

Every move of the reading is a move to the next character, or none at the end of the text. So
a cursor that starts at the front of a text stands at a position of that text ever after, and
the positions never fall:

> `IsAt.leads`: what a cursor at a position comes to is at no smaller position of the same text.

An entry takes a character, so each pass of the reading raises the position
(`IsAt.entry`), and there are no more passes than characters (`Passes.length_le`).
-/

namespace Stepwise

namespace Cursor

variable {text : List Char} {position : Nat} {c c' : Cursor} {e : LineEntry}

/-- The cursor stands at a position of a text. -/
structure IsAt (c : Cursor) (text : List Char) (position : Nat) : Prop where
  within : position ≤ text.length
  behind : c.behind = (text.take position).reverse
  ahead : c.ahead = text.drop position

/-- What a cursor comes to, character by character. -/
def Leads : Cursor → Cursor → Prop := Relation.ReflTransGen fun c c' => c' = c.advance

/-- The passes of the reading from one place to another, with the entries that they read. -/
inductive Passes : Cursor → List LineEntry → Cursor → Prop
  | done (c : Cursor) : Passes c [] c
  | pass {c c' last : Cursor} {e : LineEntry} {entries : List LineEntry}
      (h : c.entry? = some (e, c')) (hrest : Passes c' entries last) :
      Passes c (e :: entries) last

/-- The characters of a text between two positions, which must be in order and within it. -/
def slice? (text : List Char) (first last : Nat) : Option (List Char) :=
  if first ≤ last ∧ last ≤ text.length then some ((text.take last).drop first) else none

/-- What is shown of a text around a position: the slices of a few characters on either side,
as far as the text goes. -/
def contextAt? (text : List Char) (position : Nat) : Option String := do
  let before ← slice? text (position - contextWidth) position
  let after ← slice? text position (min (position + contextWidth) text.length)
  return "..." ++ String.ofList before ++ "[here]" ++ String.ofList after ++ "..."

/-! ## Positions -/

theorem isAt_iff : c.IsAt text position ↔ c.text = text ∧ c.behind.length = position := by
  constructor
  · rintro ⟨hwithin, hbehind, hahead⟩
    refine ⟨?_, ?_⟩
    · rw [Cursor.text, hbehind, hahead, List.reverse_reverse, List.take_append_drop]
    · rw [hbehind, List.length_reverse, List.length_take_of_le hwithin]
  · rintro ⟨rfl, rfl⟩
    have hlength : c.behind.length = c.behind.reverse.length := List.length_reverse.symm
    refine ⟨?_, ?_, ?_⟩
    · rw [Cursor.text, List.length_append, hlength]
      exact Nat.le_add_right ..
    · rw [Cursor.text, hlength, List.take_left, List.reverse_reverse]
    · rw [Cursor.text, hlength, List.drop_left]

theorem isAt_start (text : List Char) : (start text).IsAt text 0 := isAt_iff.2 ⟨rfl, rfl⟩

/-- One move raises the position by one, unless it is at the end already. -/
theorem IsAt.advance (h : c.IsAt text position) :
    c.advance.IsAt text (min (position + 1) text.length) := by
  obtain ⟨rfl, rfl⟩ := isAt_iff.1 h
  rw [isAt_iff]
  obtain ⟨behind, ahead⟩ := c
  cases ahead with
  | nil => simp [Cursor.advance, Cursor.text]
  | cons x ahead => simp [Cursor.advance, Cursor.text]

/-- **A cursor stays within its text and never goes back.** -/
theorem IsAt.leads (h : c.IsAt text position) (hleads : c.Leads c') :
    ∃ position', position ≤ position' ∧ c'.IsAt text position' := by
  induction hleads with
  | refl => exact ⟨position, Nat.le_refl _, h⟩
  | tail _ hmove ih =>
    obtain ⟨position', hle, hat⟩ := ih
    have hwithin := hat.within
    exact ⟨_, by omega, hmove ▸ hat.advance⟩

/-- The slices around a position are within the text, and are what a message shows. -/
theorem IsAt.contextAt? (h : c.IsAt text position) :
    Cursor.contextAt? text position = some c.context := by
  obtain ⟨hwithin, hbehind, hahead⟩ := h
  have hbefore : slice? text (position - contextWidth) position =
      some (c.behind.take contextWidth).reverse := by
    rw [slice?, if_pos ⟨Nat.sub_le .., hwithin⟩, hbehind, List.reverse_take,
      List.reverse_reverse, List.length_reverse, List.length_take_of_le hwithin]
  have hafter : slice? text position (min (position + contextWidth) text.length) =
      some (c.ahead.take contextWidth) := by
    have hle : position ≤ min (position + contextWidth) text.length := by omega
    rw [slice?, if_pos ⟨hle, Nat.min_le_right ..⟩, hahead, List.take_drop, ← List.take_eq_take_min]
  rw [Cursor.contextAt?, hbefore, hafter]
  rfl

/-! ## The moves of a pass -/

theorem leads_advance (c : Cursor) : c.Leads c.advance := .single rfl

/-- A run is left character by character. -/
theorem leads_skip (accept : Char → Bool) (c : Cursor) : c.Leads (c.skip accept) := by
  obtain ⟨behind, ahead⟩ := c
  induction ahead generalizing behind with
  | nil => exact .refl
  | cons x ahead ih =>
    by_cases hx : accept x = true
    · rw [skip_cons behind hx]
      exact .head rfl (ih (x :: behind))
    · rw [skip_eq_self behind (by simpa using hx)]
      exact .refl

theorem leads_binding (c : Cursor) : c.Leads c.binding.2 := by
  have hsign := ((leads_skip isNameChar c).trans (leads_skip Text.isBlank _)).trans
    (leads_advance _)
  unfold binding
  dsimp only
  split
  · have hnumber := (hsign.trans (leads_skip Text.isBlank _)).trans (leads_skip isNumberChar _)
    split
    · exact hnumber
    · exact hnumber
  · exact hsign

theorem leads_of_entry (h : c.entry? = some (e, c')) : c.Leads c' := by
  have hblanks := leads_skip Text.isBlank c
  have hname := (hblanks.trans (leads_advance _)).trans (leads_skip isNameChar _)
  unfold entry? at h
  dsimp only at h
  split at h
  · cases h
  · cases h
    exact hname
  · cases h
    exact hname
  · have hbinding := hblanks.trans (leads_binding _)
    rw [Option.some.inj h] at hbinding
    exact hbinding

/-- **Every pass that reads an entry takes a character.** -/
theorem IsAt.entry (h : c.IsAt text position) (hentry : c.entry? = some (e, c')) :
    ∃ position', position < position' ∧ c'.IsAt text position' := by
  obtain ⟨position', -, hat⟩ := h.leads (leads_of_entry hentry)
  have hlt := length_entry?_lt hentry
  rw [h.ahead, hat.ahead, List.length_drop, List.length_drop] at hlt
  exact ⟨position', by omega, hat⟩

/-- A missing sign is shown at the place where the reading goes on. -/
theorem context_of_entry {name context : String}
    (h : c.entry? = some (.fault (.missingEquals name context), c')) : context = c'.context := by
  unfold Cursor.entry? at h
  dsimp only at h
  split at h
  · cases h
  · cases h
  · cases h
  · unfold binding at h
    dsimp only at h
    split at h
    · split at h
      · cases h
      · cases h
    · cases h
      rfl

/-! ## All passes -/

/-- The reading ends at a place where no entry is ahead. -/
theorem exists_passes (c : Cursor) : ∃ last, c.Passes c.entries last ∧ last.entry? = none := by
  fun_induction entries c with
  | case1 c hnone => exact ⟨c, .done c, hnone⟩
  | case2 c e rest hentry ih =>
    obtain ⟨last, hpasses, hnone⟩ := ih
    exact ⟨last, .pass hentry hpasses, hnone⟩

namespace Passes

variable {entries : List LineEntry} {last : Cursor}

/-- **No more passes than characters.** -/
theorem length_le (hpasses : c.Passes entries last) (h : c.IsAt text position) :
    position + entries.length ≤ text.length := by
  induction hpasses generalizing position with
  | done => exact h.within
  | pass hentry _ ih =>
    obtain ⟨position', hlt, hat⟩ := h.entry hentry
    have hle := ih hat
    rw [List.length_cons]
    omega

/-- What is read is read in some pass. -/
theorem exists_of_mem (hpasses : c.Passes entries last) (he : e ∈ entries) :
    ∃ c₁ c₂, c.Leads c₁ ∧ c₁.entry? = some (e, c₂) := by
  induction hpasses with
  | done => cases he
  | @pass c₁ c₂ _ _ _ hentry _ ih =>
    rcases List.mem_cons.1 he with rfl | he
    · exact ⟨c₁, c₂, .refl, hentry⟩
    · obtain ⟨c₃, c₄, hleads, hlater⟩ := ih he
      exact ⟨c₃, c₄, (leads_of_entry hentry).trans hleads, hlater⟩

end Passes

end Cursor

/-! ## What is read of a line -/

/-- Every entry is of one kind. -/
theorem LineEntry.length_kinds (entries : List LineEntry) :
    (entries.filterMap library?).length + (entries.filterMap hint?).length +
      (entries.filterMap binding?).length + (entries.filterMap fault?).length =
        entries.length := by
  induction entries with
  | nil => rfl
  | cons e entries ih =>
    simp only [List.filterMap_cons, List.length_cons]
    cases e with
    | library name | hint name | binding name value | fault f =>
      simp only [library?, hint?, binding?, fault?, List.length_cons]
      omega

theorem Text.length_trim_le (cs : List Char) : (trim cs).length ≤ cs.length := by
  unfold trim
  rw [List.length_reverse]
  calc
    _ ≤ (cs.dropWhile isBlank).reverse.length := (List.dropWhile_sublist _).length_le
    _ = (cs.dropWhile isBlank).length := List.length_reverse
    _ ≤ cs.length := (List.dropWhile_sublist _).length_le

namespace Session

/-- The bindings of a line that were accepted. -/
def lineBindings (line : String) : List (String × Float) :=
  (lineEntries line).filterMap LineEntry.binding?

theorem length_lineEntries_le (line : String) : (lineEntries line).length ≤ line.length := by
  obtain ⟨last, hpasses, -⟩ := Cursor.exists_passes (.start (Text.trim line.toList))
  have hle := hpasses.length_le (Cursor.isAt_start _)
  rw [Nat.zero_add] at hle
  calc
    _ ≤ (Text.trim line.toList).length := hle
    _ ≤ line.toList.length := Text.length_trim_le _
    _ = line.length := String.length_toList

/-- What is shown of a missing sign is shown of a position of the text. -/
theorem exists_contextAt?_of_mem {line name context : String}
    (h : .missingEquals name context ∈ (read line).faults) :
    ∃ position ≤ (Text.trim line.toList).length,
      Cursor.contextAt? (Text.trim line.toList) position = some context := by
  obtain ⟨e, he, hfault⟩ := List.mem_filterMap.1 h
  have he' : e = .fault (.missingEquals name context) := by
    cases e with
    | fault f => exact congrArg LineEntry.fault (Option.some.inj hfault)
    | _ => cases hfault
  obtain ⟨last, hpasses, -⟩ := Cursor.exists_passes (.start (Text.trim line.toList))
  obtain ⟨c, c', hleads, hentry⟩ := hpasses.exists_of_mem he
  have hleads := hleads.trans (Cursor.leads_of_entry hentry)
  obtain ⟨position, -, hat⟩ := (Cursor.isAt_start _).leads hleads
  rw [he'] at hentry
  exact ⟨position, hat.within, Cursor.context_of_entry hentry ▸ hat.contextAt?⟩

/-- **Reading moves on and stays within its text.** Of the text of a line without the blanks
at its ends:

* whatever the cursor comes to is a position of the text, around which the slices of a context
  are within the text and make what a message shows;
* from such a position a pass either ends the reading or comes to a greater one;
* the entries of the line are read by passes from the front to a place where the reading ends;
* what is shown of a missing sign is the context of a position;
* catalogs, hints, accepted bindings and faults are together no more than the characters of the
  line, and no more names are bound than bindings were accepted. -/
theorem read_progress (line : String) :
    (∀ c, (Cursor.start (Text.trim line.toList)).Leads c →
      ∃ position, c.IsAt (Text.trim line.toList) position ∧
        Cursor.contextAt? (Text.trim line.toList) position = some c.context ∧
        ∀ e c', c.entry? = some (e, c') → c.Leads c' ∧
          ∃ position' > position, c'.IsAt (Text.trim line.toList) position') ∧
    (∃ last, (Cursor.start (Text.trim line.toList)).Passes (lineEntries line) last ∧
      last.entry? = none) ∧
    (∀ name context, .missingEquals name context ∈ (read line).faults →
      ∃ position ≤ (Text.trim line.toList).length,
        Cursor.contextAt? (Text.trim line.toList) position = some context) ∧
    (read line).session.libraries.length + (read line).session.hints.length +
      (lineBindings line).length + (read line).faults.length ≤ line.length ∧
    (read line).session.values.entries.length ≤ (lineBindings line).length := by
  refine ⟨?_, Cursor.exists_passes _, fun _ _ => exists_contextAt?_of_mem, ?_, ?_⟩
  · intro c hleads
    obtain ⟨position, -, hat⟩ := (Cursor.isAt_start _).leads hleads
    exact ⟨position, hat, hat.contextAt?, fun e c' hentry =>
      ⟨Cursor.leads_of_entry hentry, hat.entry hentry⟩⟩
  · calc
      _ = (lineEntries line).length := LineEntry.length_kinds _
      _ ≤ line.length := length_lineEntries_le line
  · exact Bindings.length_ofList_le (lineBindings line)

theorem trim_cut : Text.trim "t xi".toList = ['t', ' ', 'x', 'i'] := by decide

theorem entry?_cut : Cursor.entry? (.start ['t', ' ', 'x', 'i']) =
    some (.fault (.missingEquals "t" "...t x[here]i..."), ⟨['x', ' ', 't'], ['i']⟩) := by rfl

theorem lineEntries_cut : lineEntries "t xi" =
    [.fault (.missingEquals "t" "...t x[here]i..."),
      .fault (.missingEquals "i" "...t xi[here]...")] := by
  have hlast : Cursor.entry? ⟨['x', ' ', 't'], ['i']⟩ =
      some (.fault (.missingEquals "i" "...t xi[here]..."), ⟨['i', 'x', ' ', 't'], []⟩) := by rfl
  rw [lineEntries, trim_cut, Cursor.entries_of_some entry?_cut, Cursor.entries_of_some hlast,
    Cursor.entries_end]

/-- Two names without a sign, of which the second ends with the text. -/
theorem read_progress_cut :
    (read "t xi").faults = [.missingEquals "t" "...t x[here]i...",
      .missingEquals "i" "...t xi[here]..."] ∧
    (∃ position > 0, Cursor.IsAt ⟨['x', ' ', 't'], ['i']⟩ ['t', ' ', 'x', 'i'] position) ∧
    (∃ position ≤ 4, Cursor.contextAt? ['t', ' ', 'x', 'i'] position =
      some "...t xi[here]...") ∧
    (read "t xi").session.libraries.length + (read "t xi").session.hints.length +
      (lineBindings "t xi").length + (read "t xi").faults.length ≤ "t xi".length := by
  have hfaults : (read "t xi").faults = [.missingEquals "t" "...t x[here]i...",
      .missingEquals "i" "...t xi[here]..."] := by
    rw [read, lineEntries_cut]
    rfl
  obtain ⟨hcursor, -, hcontext, hcount, -⟩ := read_progress "t xi"
  rw [trim_cut] at hcursor hcontext
  obtain ⟨position, -, -, hpass⟩ := hcursor _ .refl
  obtain ⟨-, position', hlt, hat⟩ := hpass _ _ entry?_cut
  refine ⟨hfaults, ⟨position', Nat.zero_lt_of_lt hlt, hat⟩, ?_, hcount⟩
  exact hcontext _ _ (hfaults ▸ List.mem_cons_of_mem _ List.mem_cons_self)

end Session

end Stepwise
