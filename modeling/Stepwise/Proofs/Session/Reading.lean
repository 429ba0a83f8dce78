import Stepwise.Proofs.Bindings
import Stepwise.Proofs.Number.ReadBack
import Stepwise.Session.Line

/-!
# The reading of words

A line is read in runs: a run of characters of one class ends where a character of
another class stands, so what an entry takes depends on one character behind it.
Between blanks a word is read alike wherever it stands (`ReadsAs`):

> `entries_words`: words between blanks are read one by one, in order.

Whatever the text, the names that are read consist of name characters
(`isNamed_of_mem_entries`).
-/

namespace Stepwise

/-! ## Character classes -/

theorem isDigit_eq (c : Char) :
    c.isDigit = (decide (48 ≤ c.toNat) && decide (c.toNat ≤ 57)) := rfl

theorem toNat_of_isNameChar {c : Char} (h : isNameChar c = true) :
    45 ≤ c.toNat ∧ c.toNat ≤ 122 ∧ c.toNat ≠ 61 ∧ c.toNat ≠ 64 := by
  have hupper : c.isUpper = decide (65 ≤ c.toNat ∧ c.toNat ≤ 90) := rfl
  have hlower : c.isLower = (decide (97 ≤ c.toNat) && decide (c.toNat ≤ 122)) := rfl
  have halphanum : c.isAlphanum = (c.isUpper || c.isLower || c.isDigit) := rfl
  unfold isNameChar at h
  rw [halphanum, hupper, hlower, isDigit_eq] at h
  simp only [Bool.or_eq_true, Bool.and_eq_true, decide_eq_true_eq, beq_iff_eq] at h
  rcases h with (h | rfl) | rfl
  · omega
  · decide
  · decide

theorem toNat_of_isNumberChar {c : Char} (h : isNumberChar c = true) :
    45 ≤ c.toNat ∧ c.toNat ≤ 57 := by
  unfold isNumberChar at h
  rw [isDigit_eq] at h
  simp only [Bool.or_eq_true, Bool.and_eq_true, decide_eq_true_eq, beq_iff_eq] at h
  rcases h with (h | rfl) | rfl
  · omega
  · decide
  · decide

/-- The printed characters of ASCII are not blank. -/
theorem isBlank_eq_false {c : Char} (hlow : 33 ≤ c.toNat) (hhigh : c.toNat ≤ 126) :
    Text.isBlank c = false := by
  unfold Text.isBlank
  simp only [Bool.or_eq_false_iff, Bool.and_eq_false_iff, decide_eq_false_iff_not,
    beq_eq_false_iff_ne]
  omega

theorem isBlank_of_isNameChar {c : Char} (h : isNameChar c = true) : Text.isBlank c = false := by
  obtain ⟨hlow, hhigh, -⟩ := toNat_of_isNameChar h
  exact isBlank_eq_false (by omega) (by omega)

theorem isBlank_of_isNumberChar {c : Char} (h : isNumberChar c = true) :
    Text.isBlank c = false := by
  obtain ⟨hlow, hhigh⟩ := toNat_of_isNumberChar h
  exact isBlank_eq_false (by omega) (by omega)

/-- A name stops at a blank and at every sign of a line. -/
theorem isNameChar_eq_false {c : Char}
    (h : Text.isBlank c = true ∨ c = '=' ∨ c = '!' ∨ c = '@') : isNameChar c = false := by
  rw [← Bool.not_eq_true]
  intro hname
  obtain ⟨hlow, -, hequals, hat⟩ := toNat_of_isNameChar hname
  rcases h with h | rfl | rfl | rfl
  · rw [isBlank_of_isNameChar hname] at h
    cases h
  · exact hequals rfl
  · exact absurd hlow (by decide)
  · exact hat rfl

theorem isNumberChar_of_isBlank {c : Char} (h : Text.isBlank c = true) :
    isNumberChar c = false := by
  rw [← Bool.not_eq_true]
  intro hnumber
  rw [isBlank_of_isNumberChar hnumber] at h
  cases h

namespace Cursor

/-! ## Runs -/

section Runs

variable {accept : Char → Bool} {r rest : List Char} (behind : List Char)

theorem run_append (hr : ∀ c ∈ r, accept c = true) (hrest : ∀ c ∈ rest.head?, accept c = false) :
    run accept ⟨behind, r ++ rest⟩ = r :=
  (Text.takeWhile_run rest hr hrest).1

theorem skip_append (hr : ∀ c ∈ r, accept c = true)
    (hrest : ∀ c ∈ rest.head?, accept c = false) :
    skip accept ⟨behind, r ++ rest⟩ = ⟨r.reverse ++ behind, rest⟩ := by
  unfold skip
  rw [run_append behind hr hrest, (Text.takeWhile_run rest hr hrest).2]

/-- Where no character of a class stands, there is nothing to skip. -/
theorem skip_eq_self (hrest : ∀ c ∈ rest.head?, accept c = false) :
    skip accept ⟨behind, rest⟩ = ⟨behind, rest⟩ :=
  skip_append (r := []) behind (fun _ h => absurd h List.not_mem_nil) hrest

/-- A character of a class can be skipped before the others. -/
theorem skip_cons {c : Char} (hc : accept c = true) :
    skip accept ⟨behind, c :: rest⟩ = skip accept ⟨c :: behind, rest⟩ := by
  simp only [skip, run, List.takeWhile_cons_of_pos hc, List.dropWhile_cons_of_pos hc,
    List.reverse_cons, List.append_assoc, List.singleton_append]

end Runs

theorem advance_cons (c : Char) (behind rest : List Char) :
    advance ⟨behind, c :: rest⟩ = ⟨c :: behind, rest⟩ := rfl

/-! ## Single entries -/

section Entries

variable {behind name digits rest : List Char}

theorem entry?_library (hname : ∀ c ∈ name, isNameChar c = true)
    (hrest : ∀ c ∈ rest.head?, isNameChar c = false) :
    entry? ⟨behind, '!' :: name ++ rest⟩ =
      some (.library (String.ofList name), ⟨name.reverse ++ '!' :: behind, rest⟩) := by
  have hskip : skip Text.isBlank ⟨behind, '!' :: name ++ rest⟩ = ⟨behind, '!' :: name ++ rest⟩ :=
    skip_eq_self behind (by simp; decide)
  unfold entry?
  rw [hskip]
  show some (LineEntry.library (String.ofList (run isNameChar ⟨'!' :: behind, name ++ rest⟩)),
    skip isNameChar ⟨'!' :: behind, name ++ rest⟩) = _
  rw [run_append _ hname hrest, skip_append _ hname hrest]

theorem entry?_hint (hname : ∀ c ∈ name, isNameChar c = true)
    (hrest : ∀ c ∈ rest.head?, isNameChar c = false) :
    entry? ⟨behind, '@' :: name ++ rest⟩ =
      some (.hint (String.ofList name), ⟨name.reverse ++ '@' :: behind, rest⟩) := by
  have hskip : skip Text.isBlank ⟨behind, '@' :: name ++ rest⟩ = ⟨behind, '@' :: name ++ rest⟩ :=
    skip_eq_self behind (by simp; decide)
  unfold entry?
  rw [hskip]
  show some (LineEntry.hint (String.ofList (run isNameChar ⟨'@' :: behind, name ++ rest⟩)),
    skip isNameChar ⟨'@' :: behind, name ++ rest⟩) = _
  rw [run_append _ hname hrest, skip_append _ hname hrest]

/-- A blank before an entry is skipped. -/
theorem entry?_blank {c : Char} (hc : Text.isBlank c = true) (behind rest : List Char) :
    entry? ⟨behind, c :: rest⟩ = entry? ⟨c :: behind, rest⟩ := by
  unfold entry?
  rw [skip_cons behind hc]

/-- Blanks before an entry are skipped. -/
theorem entry?_blanks {blanks : List Char} (h : ∀ c ∈ blanks, Text.isBlank c = true) :
    entry? ⟨behind, blanks ++ rest⟩ = entry? ⟨blanks.reverse ++ behind, rest⟩ := by
  induction blanks generalizing behind with
  | nil => rfl
  | cons c blanks ih =>
    obtain ⟨hhead, htail⟩ := List.forall_mem_cons.1 h
    rw [List.cons_append, entry?_blank hhead, ih htail, List.reverse_cons, List.append_assoc,
      List.singleton_append]

/-- Where neither a blank nor a sign of another entry stands, a binding is read. -/
theorem entry?_eq_binding {c : Char} (hblank : Text.isBlank c = false) (hlibrary : c ≠ '!')
    (hhint : c ≠ '@') : entry? ⟨behind, c :: rest⟩ = some (binding ⟨behind, c :: rest⟩) := by
  have hskip : skip Text.isBlank ⟨behind, c :: rest⟩ = ⟨behind, c :: rest⟩ :=
    skip_eq_self behind (by simpa using hblank)
  unfold entry?
  rw [hskip]
  dsimp only
  split
  · next heq => cases heq
  · next heq => exact absurd (List.cons.inj heq).1 hlibrary
  · next heq => exact absurd (List.cons.inj heq).1 hhint
  · rfl

/-- The entry that a name and a run of digits around an equals sign make. -/
def valueEntry (name digits : List Char) : LineEntry :=
  match Number.ofText? digits with
  | some value => .binding (String.ofList name) value
  | none => .fault (.invalidNumber (String.ofList name) (String.ofList digits))

/-- A name, a sign and a run of digits are a binding, with any blanks around the sign. -/
theorem binding_spaced {before after : List Char} (behind : List Char)
    (hname : ∀ c ∈ name, isNameChar c = true) (hbefore : ∀ c ∈ before, Text.isBlank c = true)
    (hafter : ∀ c ∈ after, Text.isBlank c = true) (hdigits : ∀ c ∈ digits, isNumberChar c = true)
    (hstart : ∀ c ∈ (digits ++ rest).head?, Text.isBlank c = false)
    (hrest : ∀ c ∈ rest.head?, isNumberChar c = false) :
    binding ⟨behind, name ++ (before ++ '=' :: (after ++ (digits ++ rest)))⟩ =
      (valueEntry name digits, ⟨digits.reverse ++ (after.reverse ++ '=' ::
        (before.reverse ++ (name.reverse ++ behind))), rest⟩) := by
  have hsign : ∀ c ∈ (before ++ '=' :: (after ++ (digits ++ rest))).head?,
      isNameChar c = false := by
    intro c hc
    cases before with
    | nil =>
      cases hc
      decide
    | cons b before =>
      cases hc
      exact isNameChar_eq_false (.inl (hbefore _ List.mem_cons_self))
  have hequals : ∀ c ∈ ('=' :: (after ++ (digits ++ rest))).head?, Text.isBlank c = false := by
    intro c hc
    cases hc
    decide
  unfold binding valueEntry
  dsimp only
  rw [run_append _ hname hsign, skip_append _ hname hsign, skip_append _ hbefore hequals,
    if_pos List.head?_cons, advance_cons, skip_append _ hafter hstart,
    run_append _ hdigits hrest, skip_append _ hdigits hrest]
  cases Number.ofText? digits <;> rfl

/-- A binding takes its name, the sign and the run of digits, with any blanks around
the sign. -/
theorem entry?_spaced {before after : List Char} (behind : List Char)
    (hname : ∀ c ∈ name, isNameChar c = true)
    (hbefore : ∀ c ∈ before, Text.isBlank c = true)
    (hafter : ∀ c ∈ after, Text.isBlank c = true) (hdigits : ∀ c ∈ digits, isNumberChar c = true)
    (hstart : ∀ c ∈ (digits ++ rest).head?, Text.isBlank c = false)
    (hrest : ∀ c ∈ rest.head?, isNumberChar c = false) :
    entry? ⟨behind, name ++ (before ++ '=' :: (after ++ (digits ++ rest)))⟩ =
      some (valueEntry name digits, ⟨digits.reverse ++ (after.reverse ++ '=' ::
        (before.reverse ++ (name.reverse ++ behind))), rest⟩) := by
  -- A binding starts with its name, or with the sign if the name is empty: the blanks
  -- before the sign are then those before the entry.
  cases name with
  | nil =>
    rw [List.nil_append, entry?_blanks hbefore, List.reverse_nil, List.nil_append,
      entry?_eq_binding (by decide) (by decide) (by decide)]
    have hbinding := binding_spaced (before.reverse ++ behind) hname (List.forall_mem_nil _) hafter
      hdigits hstart hrest
    exact congrArg some hbinding
  | cons c name =>
    have hc := hname c List.mem_cons_self
    rw [List.cons_append, entry?_eq_binding (isBlank_of_isNameChar hc), ← List.cons_append,
      binding_spaced behind hname hbefore hafter hdigits hstart hrest]
    · rintro rfl
      cases hc
    · rintro rfl
      cases hc

/-- A binding takes its name, the sign and the run of digits. -/
theorem entry?_value (hname : ∀ c ∈ name, isNameChar c = true)
    (hdigits : ∀ c ∈ digits, isNumberChar c = true)
    (hstart : ∀ c ∈ (digits ++ rest).head?, Text.isBlank c = false)
    (hrest : ∀ c ∈ rest.head?, isNumberChar c = false) :
    entry? ⟨behind, name ++ '=' :: (digits ++ rest)⟩ =
      some (valueEntry name digits, ⟨digits.reverse ++ '=' :: (name.reverse ++ behind), rest⟩) := by
  have hentry := entry?_spaced behind hname (List.forall_mem_nil _) (List.forall_mem_nil _) hdigits
    hstart hrest
  exact hentry

end Entries

/-! ## Entries in sequence -/

theorem entries_eq (c : Cursor) :
    c.entries = match c.entry? with
      | none => []
      | some (e, rest) => e :: rest.entries := by
  rw [entries]
  split
  · next hnone => rw [hnone]
  · next hsome => rw [hsome]

theorem entries_of_some {c rest : Cursor} {e : LineEntry} (h : c.entry? = some (e, rest)) :
    c.entries = e :: rest.entries := by
  rw [entries_eq, h]

theorem entries_end (behind : List Char) : entries ⟨behind, []⟩ = [] := by
  rw [entries_eq]
  rfl

/-- A blank before an entry is skipped. -/
theorem entries_blank {c : Char} (hc : Text.isBlank c = true) (behind rest : List Char) :
    entries ⟨behind, c :: rest⟩ = entries ⟨c :: behind, rest⟩ := by
  rw [entries_eq, entry?_blank hc, ← entries_eq]

/-- Before a blank or the end a word reads as an entry. -/
def ReadsAs (word : List Char) (e : LineEntry) : Prop :=
  ∀ behind rest, (∀ c ∈ rest.head?, Text.isBlank c = true) →
    entry? ⟨behind, word ++ rest⟩ = some (e, ⟨word.reverse ++ behind, rest⟩)

theorem readsAs_library {name : List Char} (hname : ∀ c ∈ name, isNameChar c = true) :
    ReadsAs ('!' :: name) (.library (String.ofList name)) := by
  intro behind rest hrest
  rw [entry?_library hname fun c hc => isNameChar_eq_false (.inl (hrest c hc)), List.reverse_cons,
    List.append_assoc, List.singleton_append]

theorem readsAs_hint {name : List Char} (hname : ∀ c ∈ name, isNameChar c = true) :
    ReadsAs ('@' :: name) (.hint (String.ofList name)) := by
  intro behind rest hrest
  rw [entry?_hint hname fun c hc => isNameChar_eq_false (.inl (hrest c hc)), List.reverse_cons,
    List.append_assoc, List.singleton_append]

/-- A run of digits starts with no blank, unless it is empty. -/
theorem readsAs_value {name digits : List Char} (hname : ∀ c ∈ name, isNameChar c = true)
    (hdigits : ∀ c ∈ digits, isNumberChar c = true) (hne : digits ≠ []) :
    ReadsAs (name ++ '=' :: digits) (valueEntry name digits) := by
  intro behind rest hrest
  have hstart : ∀ c ∈ (digits ++ rest).head?, Text.isBlank c = false := by
    obtain ⟨d, digits, rfl⟩ := List.exists_cons_of_ne_nil hne
    intro c hc
    cases hc
    exact isBlank_of_isNumberChar (hdigits d (List.mem_cons_self ..))
  rw [List.append_assoc, List.cons_append, entry?_value hname hdigits hstart
    fun c hc => isNumberChar_of_isBlank (hrest c hc)]
  simp only [List.reverse_append, List.reverse_cons, List.append_assoc, List.cons_append,
    List.nil_append]

/-- Words as they follow a word: behind a blank, if there are any. -/
def wordsBehind : List (List Char) → List Char
  | [] => []
  | w :: words => ' ' :: [' '].intercalate (w :: words)

theorem intercalate_cons (w : List Char) (words : List (List Char)) :
    [' '].intercalate (w :: words) = w ++ wordsBehind words := by
  cases words with
  | nil => rw [List.intercalate_singleton, wordsBehind, List.append_nil]
  | cons w' words =>
    rw [List.intercalate_cons_cons, wordsBehind, List.append_assoc, List.singleton_append]

theorem isBlank_wordsBehind (words : List (List Char)) :
    ∀ c ∈ (wordsBehind words).head?, Text.isBlank c = true := by
  intro c hc
  cases words with
  | nil => cases hc
  | cons w words =>
    cases hc
    decide

theorem entries_wordsBehind (words : List (List Char)) (behind : List Char) :
    ∃ behind', entries ⟨behind, wordsBehind words⟩ =
      entries ⟨behind', [' '].intercalate words⟩ := by
  cases words with
  | nil => exact ⟨behind, rfl⟩
  | cons w words => exact ⟨' ' :: behind, entries_blank (by decide) behind _⟩

/-- **Words between blanks are read one by one.** -/
theorem entries_words {words : List (List Char × LineEntry)}
    (h : ∀ w ∈ words, ReadsAs w.1 w.2) (behind : List Char) :
    entries ⟨behind, [' '].intercalate (words.map (·.1))⟩ = words.map (·.2) := by
  induction words generalizing behind with
  | nil => exact entries_end behind
  | cons w words ih =>
    obtain ⟨hhead, htail⟩ := List.forall_mem_cons.1 h
    -- The blank behind a word is what ends it, and the next word starts behind the blank.
    have hentry := hhead behind _ (isBlank_wordsBehind (words.map (·.1)))
    obtain ⟨behind', hbehind⟩ :=
      entries_wordsBehind (words.map (·.1)) (w.1.reverse ++ behind)
    rw [List.map_cons, List.map_cons, intercalate_cons, entries_of_some hentry, hbehind,
      ih htail]

/-- Before a blank or the end a word starts with a fault. -/
def Breaks (word : List Char) : Prop :=
  ∀ behind rest, (∀ c ∈ rest.head?, Text.isBlank c = true) →
    ∃ fault after, entry? ⟨behind, word ++ rest⟩ = some (.fault fault, after)

/-- Digits that are no number break a value where they end. -/
theorem breaks_value {name : List Char} {c : Char} (digits word : List Char)
    (hname : ∀ c ∈ name, isNameChar c = true) (hdigits : ∀ c ∈ digits, isNumberChar c = true)
    (hnone : Number.ofText? digits = none) (hnumber : isNumberChar c = false)
    (hblank : Text.isBlank c = false) : Breaks (name ++ '=' :: (digits ++ c :: word)) := by
  intro behind rest _
  have hstart : ∀ d ∈ (digits ++ (c :: word ++ rest)).head?, Text.isBlank d = false := by
    intro d hd
    cases digits with
    | nil =>
      cases hd
      exact hblank
    | cons d' digits =>
      cases hd
      exact isBlank_of_isNumberChar (hdigits d (List.mem_cons_self ..))
  have hrest : ∀ d ∈ (c :: word ++ rest).head?, isNumberChar d = false := by
    intro d hd
    cases hd
    exact hnumber
  rw [List.append_assoc, List.cons_append, List.append_assoc,
    entry?_value hname hdigits hstart hrest]
  unfold valueEntry
  rw [hnone]
  exact ⟨_, _, rfl⟩

/-- A word that breaks among words that read is a fault of the line. -/
theorem exists_fault {words : List (List Char)} (h : ∀ w ∈ words, (∃ e, ReadsAs w e) ∨ Breaks w)
    (hbreaks : ∃ w ∈ words, Breaks w) (behind : List Char) :
    ∃ fault, .fault fault ∈ entries ⟨behind, [' '].intercalate words⟩ := by
  induction words generalizing behind with
  | nil =>
    obtain ⟨w, hw, -⟩ := hbreaks
    cases hw
  | cons w words ih =>
    obtain ⟨hhead, htail⟩ := List.forall_mem_cons.1 h
    have hblank := isBlank_wordsBehind words
    rw [intercalate_cons]
    by_cases hfirst : Breaks w
    · -- Whatever comes behind the first fault, it is on the list.
      obtain ⟨fault, after, hentry⟩ := hfirst behind _ hblank
      rw [entries_of_some hentry]
      exact ⟨fault, List.mem_cons_self ..⟩
    · obtain ⟨e, hreads⟩ := hhead.resolve_right hfirst
      obtain ⟨w', hw', hbreak⟩ := hbreaks
      have hlater : ∃ w ∈ words, Breaks w := by
        rcases List.mem_cons.1 hw' with rfl | hw'
        · exact absurd hbreak hfirst
        · exact ⟨w', hw', hbreak⟩
      obtain ⟨behind', hbehind⟩ := entries_wordsBehind words (w.reverse ++ behind)
      obtain ⟨fault, hfault⟩ := ih htail hlater behind'
      rw [entries_of_some (hreads behind _ hblank), hbehind]
      exact ⟨fault, List.mem_cons_of_mem _ hfault⟩

end Cursor

/-! ## Lines of words -/

/-- A text without a blank at its ends is all that is left of it. -/
theorem trim_eq_self {cs : List Char} (hfirst : ∀ c ∈ cs.head?, Text.isBlank c = false)
    (hlast : ∀ c ∈ cs.getLast?, Text.isBlank c = false) : Text.trim cs = cs := by
  have hdrop : ∀ ds : List Char, (∀ c ∈ ds.head?, Text.isBlank c = false) →
      ds.dropWhile Text.isBlank = ds := by
    intro ds hds
    exact (Text.takeWhile_run ds (fun c (hc : c ∈ []) => absurd hc List.not_mem_nil) hds).2
  unfold Text.trim
  rw [hdrop cs hfirst, hdrop cs.reverse (by rwa [List.head?_reverse]), List.reverse_reverse]

/-- Words between blanks have no blank at their ends. -/
theorem trim_words {words : List (List Char)}
    (h : ∀ w ∈ words, w ≠ [] ∧ ∀ c ∈ w, Text.isBlank c = false) :
    Text.trim ([' '].intercalate words) = [' '].intercalate words := by
  refine trim_eq_self ?_ ?_
  · cases words with
    | nil => simp
    | cons w words =>
      obtain ⟨⟨hne, hblank⟩, -⟩ := List.forall_mem_cons.1 h
      obtain ⟨c, w, rfl⟩ := List.exists_cons_of_ne_nil hne
      intro d hd
      rw [List.intercalate_cons_cons_left] at hd
      cases hd
      exact hblank c (List.mem_cons_self ..)
  · induction words with
    | nil => simp
    | cons w words ih =>
      obtain ⟨⟨-, hblank⟩, htail⟩ := List.forall_mem_cons.1 h
      intro c hc
      cases words with
      | nil =>
        rw [List.intercalate_singleton] at hc
        exact hblank c (List.mem_of_mem_getLast? hc)
      | cons w' words =>
        rw [List.intercalate_cons_cons, List.getLast?_append] at hc
        rcases Option.or_eq_some_iff.1 hc with hc | ⟨hnone, -⟩
        · exact ih htail c hc
        · -- The words behind the blank are not empty, for the first of them is not.
          rw [List.getLast?_eq_none_iff, Cursor.intercalate_cons] at hnone
          exact absurd (List.append_eq_nil_iff.1 hnone).1 (htail w' (List.mem_cons_self ..)).1

/-- The entries of a line of words are read from the words. -/
theorem lineEntries_eq {line : String} {words : List (List Char)}
    (hline : line.toList = [' '].intercalate words)
    (hwords : ∀ w ∈ words, w ≠ [] ∧ ∀ c ∈ w, Text.isBlank c = false) :
    Session.lineEntries line = (Cursor.start ([' '].intercalate words)).entries := by
  unfold Session.lineEntries
  rw [hline, trim_words hwords]

/-! ## Names -/

/-- A name of a line: any number of name characters. -/
def IsName (name : String) : Prop := ∀ c ∈ name.toList, isNameChar c = true

instance : DecidablePred IsName := fun name =>
  decidable_of_iff (name.toList.all isNameChar = true) List.all_eq_true

/-- The name of an entry that is read is a name of a line. -/
def LineEntry.IsNamed : LineEntry → Prop
  | .library name => IsName name
  | .hint name => IsName name
  | .binding name _ => IsName name
  | .fault _ => True

namespace Cursor

theorem isName_run (c : Cursor) : IsName (String.ofList (c.run isNameChar)) := by
  intro x hx
  rw [String.toList_ofList] at hx
  exact List.all_eq_true.1 List.all_takeWhile x hx

theorem isNamed_binding (c : Cursor) : c.binding.1.IsNamed := by
  unfold binding
  dsimp only
  split
  · split
    · exact isName_run c
    · trivial
  · trivial

theorem isNamed_of_some {c rest : Cursor} {e : LineEntry} (h : c.entry? = some (e, rest)) :
    e.IsNamed := by
  unfold entry? at h
  dsimp only at h
  split at h
  · cases h
  · cases h
    exact isName_run _
  · cases h
    exact isName_run _
  · have hnamed := isNamed_binding (c.skip Text.isBlank)
    rwa [Option.some.inj h] at hnamed

/-- **Every name that is read consists of name characters.** -/
theorem isNamed_of_mem_entries {c : Cursor} {e : LineEntry} (h : e ∈ c.entries) : e.IsNamed := by
  fun_induction entries c with
  | case1 => cases h
  | case2 c first rest hentry ih =>
    rcases List.mem_cons.1 h with rfl | h
    · exact isNamed_of_some hentry
    · exact ih h

end Cursor

/-! ## The names of a session that is read -/

namespace LineEntry

theorem library?_eq_some {e : LineEntry} {name : String} (h : e.library? = some name) :
    e = .library name := by
  cases e with
  | library n =>
    cases h
    rfl
  | hint n => cases h
  | binding n v => cases h
  | fault f => cases h

theorem hint?_eq_some {e : LineEntry} {name : String} (h : e.hint? = some name) :
    e = .hint name := by
  cases e with
  | hint n =>
    cases h
    rfl
  | library n => cases h
  | binding n v => cases h
  | fault f => cases h

theorem binding?_eq_some {e : LineEntry} {entry : String × Float} (h : e.binding? = some entry) :
    e = .binding entry.1 entry.2 := by
  cases e with
  | binding n v =>
    cases h
    rfl
  | library n => cases h
  | hint n => cases h
  | fault f => cases h

end LineEntry

namespace Session

theorem isName_of_mem_libraries {line name : String} (h : name ∈ (read line).session.libraries) :
    IsName name := by
  obtain ⟨e, he, hname⟩ := List.mem_filterMap.1 h
  have hnamed := Cursor.isNamed_of_mem_entries he
  rwa [LineEntry.library?_eq_some hname] at hnamed

theorem isName_of_mem_hints {line name : String} (h : name ∈ (read line).session.hints) :
    IsName name := by
  obtain ⟨e, he, hname⟩ := List.mem_filterMap.1 h
  have hnamed := Cursor.isNamed_of_mem_entries he
  rwa [LineEntry.hint?_eq_some hname] at hnamed

theorem isName_of_mem_values {line : String} {entry : String × Float}
    (h : entry ∈ (read line).session.values.entries) : IsName entry.1 := by
  refine Bindings.forall_mem_insertAll (p := fun entry => IsName entry.1) ?_ ?_ entry h
  · exact List.forall_mem_nil _
  · intro entry hentry
    obtain ⟨e, he, hbinding⟩ := List.mem_filterMap.1 hentry
    have hnamed := Cursor.isNamed_of_mem_entries he
    rwa [LineEntry.binding?_eq_some hbinding] at hnamed

end Session

end Stepwise
