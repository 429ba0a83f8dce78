import Stepwise.Proofs.Number.Numeral
import Stepwise.Proofs.Session.Reading

/-!
# The grammar of session lines

A line without faults is a text that can be cut into the written forms of entries,
each behind any blanks, and none followed by a character that would belong to it:

> `faults_eq_nil_iff`: a line has no fault exactly if what is left of it without the
> blanks at its ends spells entries.

However it is cut, the entries are those that are read (`entries_of_spells`). So the
session is known by its catalogs in order, its hints in order and the last binding of
each name, in whatever way the three kinds of entries are mixed.
-/

namespace Stepwise

theorem isNumberChar_iff {c : Char} : isNumberChar c = true ↔ IsNumeric c := by
  unfold isNumberChar IsNumeric
  rw [Bool.or_eq_true, Bool.or_eq_true, beq_iff_eq, beq_iff_eq, or_assoc]

namespace LineEntry

/-- The forms in which an entry may be written. Names may be empty, and blanks may stand
on both sides of the sign of a binding. -/
inductive IsWritten : LineEntry → List Char → Prop
  | library (name : List Char) (hname : ∀ c ∈ name, isNameChar c = true) :
      IsWritten (.library (String.ofList name)) ('!' :: name)
  | hint (name : List Char) (hname : ∀ c ∈ name, isNameChar c = true) :
      IsWritten (.hint (String.ofList name)) ('@' :: name)
  | binding (name before after : List Char) {digits : List Char} {value : Float}
      (hname : ∀ c ∈ name, isNameChar c = true) (hbefore : ∀ c ∈ before, Text.isBlank c = true)
      (hafter : ∀ c ∈ after, Text.isBlank c = true) (hdigits : Number.IsWritten digits value) :
      IsWritten (.binding (String.ofList name) value)
        (name ++ (before ++ '=' :: (after ++ digits)))

/-- Whether a character directly behind an entry would belong to it. -/
def continues : LineEntry → Char → Bool
  | .library _ | .hint _ => isNameChar
  | .binding .. | .fault _ => isNumberChar

end LineEntry

/-- A text spells entries if it can be cut into their written forms, each behind any
blanks, and none directly followed by a character that would belong to it. -/
inductive Spells : List Char → List LineEntry → Prop
  | nil : Spells [] []
  | cons (blanks : List Char) {token rest : List Char} {e : LineEntry} {entries : List LineEntry}
      (hblanks : ∀ c ∈ blanks, Text.isBlank c = true) (htoken : e.IsWritten token)
      (hrest : ∀ c ∈ rest.head?, e.continues c = false) (htail : Spells rest entries) :
      Spells (blanks ++ (token ++ rest)) (e :: entries)

theorem LineEntry.IsWritten.fault?_eq_none {e : LineEntry} {token : List Char}
    (h : e.IsWritten token) : e.fault? = none := by
  cases h with
  | library => rfl
  | hint => rfl
  | binding => rfl

theorem Spells.fault?_eq_none {text : List Char} {entries : List LineEntry} (h : Spells text entries) :
    ∀ e ∈ entries, e.fault? = none := by
  induction h with
  | nil => exact List.forall_mem_nil _
  | cons _ _ htoken _ _ ih => exact List.forall_mem_cons.2 ⟨htoken.fault?_eq_none, ih⟩

namespace Cursor

/-! ## What is spelled is read -/

/-- A numeral starts with no blank and is not empty. -/
theorem isBlank_head_digits {digits rest : List Char} {value : Float}
    (h : Number.IsWritten digits value) :
    ∀ c ∈ (digits ++ rest).head?, Text.isBlank c = false := by
  have hnumeric := h.isNumeric
  cases digits with
  | nil =>
    have hread := h.ofText?
    cases hread
  | cons d digits =>
    intro c hc
    cases hc
    exact isBlank_of_isNumberChar (isNumberChar_iff.2 (hnumeric _ List.mem_cons_self))

/-- The written form of an entry is read as the entry, up to its last character. -/
theorem entry?_of_isWritten {e : LineEntry} {token rest : List Char} (h : e.IsWritten token)
    (hrest : ∀ c ∈ rest.head?, e.continues c = false) (behind : List Char) :
    entry? ⟨behind, token ++ rest⟩ = some (e, ⟨token.reverse ++ behind, rest⟩) := by
  cases h with
  | library name hname =>
    rw [entry?_library hname hrest, List.reverse_cons, List.append_assoc, List.singleton_append]
  | hint name hname =>
    rw [entry?_hint hname hrest, List.reverse_cons, List.append_assoc, List.singleton_append]
  | @binding name before after digits value hname hbefore hafter hdigits =>
    have hentry := entry?_spaced behind hname hbefore hafter
      (fun c hc => isNumberChar_iff.2 (hdigits.isNumeric c hc)) (isBlank_head_digits hdigits) hrest
    have hvalue : valueEntry name digits = .binding (String.ofList name) value := by
      unfold valueEntry
      rw [hdigits.ofText?]
    rw [hvalue] at hentry
    simpa only [List.append_assoc, List.cons_append, List.reverse_append, List.reverse_cons,
      List.nil_append] using hentry

/-- **However a text is divided, the entries are those that are read.** -/
theorem entries_of_spells {text : List Char} {entries : List LineEntry} (h : Spells text entries)
    (behind : List Char) : Cursor.entries ⟨behind, text⟩ = entries := by
  induction h generalizing behind with
  | nil => exact entries_end behind
  | @cons blanks token rest e entries hblanks htoken hrest htail ih =>
    have hentry : entry? ⟨behind, blanks ++ (token ++ rest)⟩ =
        some (e, ⟨token.reverse ++ (blanks.reverse ++ behind), rest⟩) := by
      rw [entry?_blanks hblanks, entry?_of_isWritten htoken hrest]
    rw [entries_of_some hentry, ih]

/-! ## What is read without faults is spelled -/

/-- A run is what is skipped, up to the first character of another class. -/
theorem exists_run (accept : Char → Bool) (c : Cursor) :
    c.ahead = c.run accept ++ (c.skip accept).ahead ∧ (∀ x ∈ c.run accept, accept x = true) ∧
      ∀ x ∈ (c.skip accept).ahead.head?, accept x = false := by
  refine ⟨List.takeWhile_append_dropWhile.symm, List.all_eq_true.1 List.all_takeWhile, ?_⟩
  intro x hx
  have hhead := List.head?_dropWhile_not accept c.ahead
  rw [show c.ahead.dropWhile accept = (c.skip accept).ahead from rfl, hx] at hhead
  simpa using hhead

theorem ahead_eq_advance {c : Cursor} {x : Char} (h : c.ahead.head? = some x) :
    c.ahead = x :: c.advance.ahead := by
  obtain ⟨behind, ahead⟩ := c
  cases ahead with
  | nil => cases h
  | cons y rest =>
    cases h
    rfl

/-- A binding without a fault was written as one. -/
theorem exists_written_of_binding {c rest : Cursor} {e : LineEntry} (h : c.binding = (e, rest))
    (hfault : e.fault? = none) :
    ∃ token, c.ahead = token ++ rest.ahead ∧ e.IsWritten token ∧
      ∀ x ∈ rest.ahead.head?, e.continues x = false := by
  obtain ⟨hname, hnameChars, -⟩ := exists_run isNameChar c
  obtain ⟨hbefore, hbeforeBlank, -⟩ := exists_run Text.isBlank (c.skip isNameChar)
  unfold binding at h
  dsimp only at h
  split at h
  · next hsign =>
    have hequals := ahead_eq_advance hsign
    generalize ((c.skip isNameChar).skip Text.isBlank).advance = sign at h hequals
    obtain ⟨hafter, hafterBlank, -⟩ := exists_run Text.isBlank sign
    obtain ⟨hdigits, hdigitChars, hrest⟩ := exists_run isNumberChar (sign.skip Text.isBlank)
    split at h
    · next value hvalue =>
      cases h
      have hwritten := (Number.ofText?_eq_some_iff
        fun x hx => isNumberChar_iff.1 (hdigitChars x hx)).1 hvalue
      refine ⟨_, ?_, .binding _ _ _ hnameChars hbeforeBlank hafterBlank hwritten, hrest⟩
      rw [hname, hbefore, hequals, hafter, hdigits]
      simp only [List.append_assoc, List.cons_append]
    · cases h
      cases hfault
  · cases h
    cases hfault

/-- An entry without a fault was written as one, behind blanks. -/
theorem exists_written_of_entry? {c rest : Cursor} {e : LineEntry}
    (h : c.entry? = some (e, rest)) (hfault : e.fault? = none) :
    ∃ blanks token, c.ahead = blanks ++ (token ++ rest.ahead) ∧
      (∀ x ∈ blanks, Text.isBlank x = true) ∧ e.IsWritten token ∧
      ∀ x ∈ rest.ahead.head?, e.continues x = false := by
  obtain ⟨hblanks, hblank, -⟩ := exists_run Text.isBlank c
  unfold entry? at h
  dsimp only at h
  generalize c.skip Text.isBlank = start at h hblanks
  obtain ⟨hname, hnameChars, hrest⟩ := exists_run isNameChar start.advance
  split at h
  · cases h
  · next heq =>
    cases h
    refine ⟨_, '!' :: start.advance.run isNameChar, ?_, hblank, .library _ hnameChars, hrest⟩
    rw [List.cons_append, ← hname, ← ahead_eq_advance (by rw [heq]; rfl)]
    exact hblanks
  · next heq =>
    cases h
    refine ⟨_, '@' :: start.advance.run isNameChar, ?_, hblank, .hint _ hnameChars, hrest⟩
    rw [List.cons_append, ← hname, ← ahead_eq_advance (by rw [heq]; rfl)]
    exact hblanks
  · obtain ⟨token, htoken, hwritten, hrest⟩ :=
      exists_written_of_binding (Option.some.inj h) hfault
    refine ⟨_, token, ?_, hblank, hwritten, hrest⟩
    rw [← htoken]
    exact hblanks

/-- Where no entry is ahead, blanks are. -/
theorem forall_isBlank_of_entry?_eq_none {c : Cursor} (h : c.entry? = none) :
    ∀ x ∈ c.ahead, Text.isBlank x = true := by
  obtain ⟨hblanks, hblank, -⟩ := exists_run Text.isBlank c
  unfold entry? at h
  dsimp only at h
  split at h
  · next heq =>
    rw [heq, List.append_nil] at hblanks
    rw [hblanks]
    exact hblank
  · cases h
  · cases h
  · cases h

/-- **What is read without faults is spelled**, unless blanks are left at the end. -/
theorem spells_of_entries {c : Cursor} (hlast : ∀ x ∈ c.ahead.getLast?, Text.isBlank x = false)
    (hfaults : ∀ e ∈ c.entries, e.fault? = none) : Spells c.ahead c.entries := by
  fun_induction entries c with
  | case1 c hnone =>
    have hblank := forall_isBlank_of_entry?_eq_none hnone
    have hnil : c.ahead = [] := by
      cases hlast' : c.ahead.getLast? with
      | none => exact List.getLast?_eq_none_iff.1 hlast'
      | some x =>
        have hx := hblank x (List.mem_of_getLast? hlast')
        rw [hlast x hlast'] at hx
        cases hx
    rw [hnil]
    exact .nil
  | case2 c e rest hentry ih =>
    obtain ⟨hhead, htail⟩ := List.forall_mem_cons.1 hfaults
    obtain ⟨blanks, token, hahead, hblanks, hwritten, hrest⟩ :=
      exists_written_of_entry? hentry hhead
    have hlast' : ∀ x ∈ rest.ahead.getLast?, Text.isBlank x = false := by
      intro x hx
      refine hlast x ?_
      rw [hahead, List.getLast?_append, List.getLast?_append, hx]
      rfl
    rw [hahead]
    exact .cons _ hblanks hwritten hrest (ih hlast' htail)

end Cursor

/-! ## Lines -/

namespace Text

/-- What is left of a text without the blanks at its ends does not end in a blank. -/
theorem isBlank_getLast?_trim (cs : List Char) :
    ∀ c ∈ (trim cs).getLast?, isBlank c = false := by
  intro c hc
  unfold trim at hc
  rw [List.getLast?_reverse] at hc
  have hhead := List.head?_dropWhile_not isBlank (cs.dropWhile isBlank).reverse
  rw [hc] at hhead
  simpa using hhead

end Text

namespace Session

theorem faults_eq_nil {line : String} :
    (read line).faults = [] ↔ ∀ e ∈ lineEntries line, e.fault? = none :=
  List.filterMap_eq_nil_iff

theorem lineEntries_of_spells {line : String} {entries : List LineEntry}
    (h : Spells (Text.trim line.toList) entries) : lineEntries line = entries :=
  Cursor.entries_of_spells h []

/-- **The lines without a fault** are those that spell entries. -/
theorem faults_eq_nil_iff {line : String} :
    (read line).faults = [] ↔ ∃ entries, Spells (Text.trim line.toList) entries := by
  rw [faults_eq_nil]
  constructor
  · intro hfaults
    exact ⟨_, Cursor.spells_of_entries (c := Cursor.start (Text.trim line.toList))
      (Text.isBlank_getLast?_trim line.toList) hfaults⟩
  · rintro ⟨entries, hspells⟩
    rw [lineEntries_of_spells hspells]
    exact hspells.fault?_eq_none

/-- The last binding of a name among some entries. -/
def lastBinding? (entries : List LineEntry) (name : String) : Option Float :=
  (entries.filterMap LineEntry.binding?).reverse.lookup name

theorem get?_values_read (line name : String) :
    (read line).session.values.get? name = lastBinding? (lineEntries line) name :=
  Bindings.get?_ofList _ name

/-- **The grammar of lines**: a line has no fault exactly if it spells entries; then it
says the catalogs and the hints of the entries in their order, and of every name the
last binding; and lines of the same catalogs, hints and last bindings read alike, in
whatever way their entries are mixed. -/
theorem read_grammar (line : String) :
    ((read line).faults = [] ↔ ∃ entries, Spells (Text.trim line.toList) entries) ∧
    (∀ entries, Spells (Text.trim line.toList) entries →
      (read line).session.libraries = entries.filterMap LineEntry.library? ∧
      (read line).session.hints = entries.filterMap LineEntry.hint? ∧
      ∀ name, (read line).session.values.get? name = lastBinding? entries name) ∧
    ∀ line' entries entries', Spells (Text.trim line.toList) entries →
      Spells (Text.trim line'.toList) entries' →
      entries.filterMap LineEntry.library? = entries'.filterMap LineEntry.library? →
      entries.filterMap LineEntry.hint? = entries'.filterMap LineEntry.hint? →
      (∀ name, lastBinding? entries name = lastBinding? entries' name) →
      read line = read line' := by
  refine ⟨faults_eq_nil_iff, ?_, ?_⟩
  · intro entries hspells
    rw [← lineEntries_of_spells hspells]
    exact ⟨rfl, rfl, get?_values_read line⟩
  · intro line' entries entries' hspells hspells' hlibraries hhints hlast
    have hfaults := faults_eq_nil_iff.2 ⟨entries, hspells⟩
    have hfaults' := faults_eq_nil_iff.2 ⟨entries', hspells'⟩
    have hvalues : (read line).session.values = (read line').session.values := by
      refine Bindings.ext_get? fun name => ?_
      rw [get?_values_read, get?_values_read, lineEntries_of_spells hspells, lineEntries_of_spells hspells']
      exact hlast name
    rw [← lineEntries_of_spells hspells, ← lineEntries_of_spells hspells'] at hlibraries hhints
    have hsession : (read line).session = (read line').session := by
      show Session.mk _ _ (read line).session.values = Session.mk _ _ (read line').session.values
      rw [hlibraries, hhints, hvalues]
    show Reading.mk (read line).session (read line).faults =
      Reading.mk (read line').session (read line').faults
    rw [hsession, hfaults, hfaults']

/-- The binding of a name to a number of one digit. -/
def digitBinding (name : String) (digit : Char) : LineEntry :=
  .binding name (Number.ofNumeral false [digit] [])

/-- An entry in front of a text, with the conditions in a form that evaluates. -/
theorem spells_of_all (blanks : List Char) {token rest : List Char} {e : LineEntry} {entries : List LineEntry}
    (hblanks : blanks.all Text.isBlank = true) (htoken : e.IsWritten token)
    (hrest : rest.head?.all (fun c => !e.continues c) = true) (htail : Spells rest entries) :
    Spells (blanks ++ (token ++ rest)) (e :: entries) := by
  refine .cons blanks (List.all_eq_true.1 hblanks) htoken (fun c hc => ?_) htail
  rw [hc, Option.all_some] at hrest
  exact (Bool.not_eq_true' _).mp hrest

theorem isWritten_digit (digit : Char) (h : digit.isDigit = true) :
    Number.IsWritten [digit] (Number.ofNumeral false [digit] []) :=
  .positive ⟨List.forall_mem_singleton.2 h, List.cons_ne_nil _ _, .inl ⟨rfl, rfl⟩⟩

/-- A binding to a number of one digit, with blanks around its sign. -/
theorem isWritten_digitBinding (name before after : List Char) (digit : Char)
    (hname : name.all isNameChar = true) (hbefore : before.all Text.isBlank = true)
    (hafter : after.all Text.isBlank = true) (hdigit : digit.isDigit = true) :
    (digitBinding (String.ofList name) digit).IsWritten
      (name ++ (before ++ '=' :: (after ++ [digit]))) :=
  .binding name before after (List.all_eq_true.1 hname) (List.all_eq_true.1 hbefore)
    (List.all_eq_true.1 hafter) (isWritten_digit digit hdigit)

theorem isWritten_ignore : (LineEntry.hint "ignore").IsWritten "@ignore".toList :=
  .hint "ignore".toList (List.all_eq_true.1 rfl)

theorem isWritten_slopes : (LineEntry.library "slopes").IsWritten "!slopes".toList :=
  .library "slopes".toList (List.all_eq_true.1 rfl)

theorem spells_scattered : Spells (Text.trim "t=1 !slopes xi =4@ignore".toList)
    [digitBinding "t" '1', .library "slopes", digitBinding "xi" '4', .hint "ignore"] := by
  have hhint := spells_of_all [] rfl isWritten_ignore rfl .nil
  have hsecond := spells_of_all [' '] rfl
    (isWritten_digitBinding ['x', 'i'] [' '] [] '4' rfl rfl rfl rfl) rfl hhint
  have hlibrary := spells_of_all [' '] rfl isWritten_slopes rfl hsecond
  exact spells_of_all [] rfl (isWritten_digitBinding ['t'] [] [] '1' rfl rfl rfl rfl) rfl hlibrary

theorem spells_rebound : Spells (Text.trim " !slopes@ignore t=7 t=1xi=\t4 ".toList)
    [.library "slopes", .hint "ignore", digitBinding "t" '7', digitBinding "t" '1',
      digitBinding "xi" '4'] := by
  have hlast := spells_of_all [] rfl
    (isWritten_digitBinding ['x', 'i'] [] ['\t'] '4' rfl rfl rfl rfl) rfl .nil
  have hsecond := spells_of_all [' '] rfl
    (isWritten_digitBinding ['t'] [] [] '1' rfl rfl rfl rfl) rfl hlast
  have hfirst := spells_of_all [' '] rfl
    (isWritten_digitBinding ['t'] [] [] '7' rfl rfl rfl rfl) rfl hsecond
  have hhint := spells_of_all [] rfl isWritten_ignore rfl hfirst
  exact spells_of_all [] rfl isWritten_slopes rfl hhint

/-- A catalog, a hint and two values in two orders, once with a value that is overwritten. -/
theorem read_grammar_mixed :
    (read "t=1 !slopes xi =4@ignore").faults = [] ∧
    (read "t=1 !slopes xi =4@ignore").session.libraries = ["slopes"] ∧
    (read "t=1 !slopes xi =4@ignore").session.values.get? "t" =
      some (Number.ofNumeral false ['1'] []) ∧
    read "t=1 !slopes xi =4@ignore" = read " !slopes@ignore t=7 t=1xi=\t4 " := by
  obtain ⟨hfaults, hsession, hmixed⟩ := read_grammar "t=1 !slopes xi =4@ignore"
  obtain ⟨hlibraries, -, hvalues⟩ := hsession _ spells_scattered
  refine ⟨hfaults.2 ⟨_, spells_scattered⟩, hlibraries, hvalues "t", ?_⟩
  refine hmixed _ _ _ spells_scattered spells_rebound rfl rfl fun name => ?_
  show [_, _].lookup name = [_, _, _].lookup name
  rw [Bindings.lookup_cons_eq_ite, Bindings.lookup_cons_eq_ite, Bindings.lookup_cons_eq_ite,
    Bindings.lookup_cons_eq_ite, Bindings.lookup_cons_eq_ite]
  split
  · rfl
  · split
    · rfl
    · rfl

end Session

end Stepwise
