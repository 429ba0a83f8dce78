import Mathlib.Data.List.DropRight
import Mathlib.Logic.Relation
import Stepwise.Proofs.Session.Grammar

/-!
# What a malformed word does to its neighbours

A malformed word among the tokens of a line should be recorded and skipped: the line has
a fault, and says what the tokens say without the word. Reading goes on behind a fault at
the next character, though, not at the next word, so it depends on the word:

> `exists_remainder`: a word reads as faults up to a remainder, which is empty, or a
> binding without a value, or starts with what reads as an entry.

A remainder without a value looks for its sign or its value in the next word, and takes
from it what stands there. So the words that are skipped wherever they stand are those
that leave no remainder, and at the end of a line it is enough to leave no entry
(`skipped_iff`).
-/

namespace Stepwise

/-! ## The words of a line -/

/-- A word is not empty and has no blank. -/
structure IsWord (word : List Char) : Prop where
  ne_nil : word ≠ []
  isBlank : ∀ c ∈ word, Text.isBlank c = false

theorem IsWord.isBlank_head? {word : List Char} (h : IsWord word) (rest : List Char) :
    ∀ c ∈ (word ++ rest).head?, Text.isBlank c = false := by
  obtain ⟨c, word, rfl⟩ := List.exists_cons_of_ne_nil h.ne_nil
  rintro d ⟨⟩
  exact h.isBlank _ List.mem_cons_self

/-- A text has some words if these are what stands between its blanks. -/
inductive HasWords : List Char → List (List Char) → Prop
  | nil {blanks : List Char} (hblanks : ∀ c ∈ blanks, Text.isBlank c = true) : HasWords blanks []
  | cons (blanks : List Char) {word rest : List Char} {words : List (List Char)}
      (hblanks : ∀ c ∈ blanks, Text.isBlank c = true) (hword : IsWord word)
      (hrest : ∀ c ∈ rest.head?, Text.isBlank c = true) (htail : HasWords rest words) :
      HasWords (blanks ++ (word ++ rest)) (word :: words)

namespace HasWords

variable {text : List Char} {words : List (List Char)}

/-- A blank before a text belongs to no word of it. -/
theorem cons_blank {c : Char} (hc : Text.isBlank c = true) (h : HasWords text words) :
    HasWords (c :: text) words := by
  cases h with
  | nil hblanks => exact .nil (List.forall_mem_cons.2 ⟨hc, hblanks⟩)
  | cons blanks hblanks hword hrest htail =>
    exact .cons (c :: blanks) (List.forall_mem_cons.2 ⟨hc, hblanks⟩) hword hrest htail

/-- Blanks before a text belong to no word of it. -/
theorem dropWhile (h : HasWords text words) : HasWords (text.dropWhile Text.isBlank) words := by
  cases h with
  | nil hblanks =>
    rw [List.dropWhile_eq_nil_iff.2 hblanks]
    exact .nil (List.forall_mem_nil _)
  | @cons blanks word rest words hblanks hword hrest htail =>
    rw [(Text.takeWhile_run _ hblanks (hword.isBlank_head? rest)).2]
    exact .cons [] (List.forall_mem_nil _) hword hrest htail

/-- A blank behind a text belongs to no word of it. -/
theorem of_concat {c : Char} (hc : Text.isBlank c = true) (h : HasWords (text ++ [c]) words) :
    HasWords text words := by
  generalize htext : text ++ [c] = text' at h
  induction h generalizing text with
  | nil hblanks =>
    subst htext
    exact .nil fun d hd => hblanks d (List.mem_append_left _ hd)
  | @cons blanks word rest words hblanks hword hrest _ ih =>
    rw [← List.append_assoc] at htext
    rcases List.eq_nil_or_concat' rest with rfl | ⟨rest, d, rfl⟩
    · -- The last character would be the last of the word.
      obtain ⟨word', d, rfl⟩ := (List.eq_nil_or_concat' word).resolve_left hword.ne_nil
      rw [List.append_nil, ← List.append_assoc] at htext
      obtain ⟨-, rfl⟩ := List.append_singleton_inj.1 htext
      rw [hword.isBlank _ (List.mem_append_right _ List.mem_cons_self)] at hc
      cases hc
    · rw [← List.append_assoc] at htext
      obtain ⟨rfl, rfl⟩ := List.append_singleton_inj.1 htext
      rw [List.append_assoc]
      refine .cons blanks hblanks hword (fun d hd => hrest d ?_) (ih rfl)
      rw [List.head?_append, hd]
      rfl

theorem rdropWhile (h : HasWords text words) : HasWords (text.rdropWhile Text.isBlank) words := by
  induction text using List.reverseRecOn with
  | nil => exact h
  | append_singleton text c ih =>
    rw [List.rdropWhile_concat]
    split
    · next hc => exact ih (h.of_concat hc)
    · exact h

/-- What is left without the blanks at the ends has the same words. -/
theorem trim (h : HasWords text words) : HasWords (Text.trim text) words := h.dropWhile.rdropWhile

/-- Words joined by blanks are the words of the text. -/
theorem intercalate (h : ∀ w ∈ words, IsWord w) : HasWords ([' '].intercalate words) words := by
  induction words with
  | nil => exact .nil (List.forall_mem_nil _)
  | cons word words ih =>
    obtain ⟨hword, hwords⟩ := List.forall_mem_cons.1 h
    have hbehind : HasWords (Cursor.wordsBehind words) words := by
      cases words with
      | nil => exact ih hwords
      | cons next words => exact (ih hwords).cons_blank rfl
    rw [Cursor.intercalate_cons]
    exact .cons [] (List.forall_mem_nil _) hword (Cursor.isBlank_wordsBehind words) hbehind

end HasWords

/-- The words that a line should be made of: a catalog, a hint or a binding with its name. -/
inductive IsToken : List Char → Prop
  | library {name : List Char} (hne : name ≠ []) (hname : ∀ c ∈ name, isNameChar c = true) :
      IsToken ('!' :: name)
  | hint {name : List Char} (hne : name ≠ []) (hname : ∀ c ∈ name, isNameChar c = true) :
      IsToken ('@' :: name)
  | binding {name digits : List Char} {value : Float} (hne : name ≠ [])
      (hname : ∀ c ∈ name, isNameChar c = true) (hdigits : Number.IsWritten digits value) :
      IsToken (name ++ '=' :: digits)

theorem isWord_of_name {name rest : List Char} (hne : name ≠ [])
    (hname : ∀ c ∈ name, isNameChar c = true) (hrest : ∀ c ∈ rest, Text.isBlank c = false) :
    IsWord (name ++ rest) where
  ne_nil h := hne (List.append_eq_nil_iff.1 h).1
  isBlank := List.forall_mem_append.2 ⟨fun c hc => isBlank_of_isNameChar (hname c hc), hrest⟩

theorem IsToken.isWord {token : List Char} (h : IsToken token) : IsWord token := by
  have hsigned (c : Char) (hc : Text.isBlank c = false) {name : List Char}
      (hname : ∀ c ∈ name, isNameChar c = true) : IsWord (c :: name) :=
    ⟨List.cons_ne_nil _ _,
      List.forall_mem_cons.2 ⟨hc, fun d hd => isBlank_of_isNameChar (hname d hd)⟩⟩
  cases h with
  | library _ hname => exact hsigned '!' (by decide) hname
  | hint _ hname => exact hsigned '@' (by decide) hname
  | binding hne hname hdigits =>
    refine isWord_of_name hne hname (List.forall_mem_cons.2 ⟨by decide, fun c hc => ?_⟩)
    exact isBlank_of_isNumberChar (isNumberChar_iff.2 (hdigits.isNumeric c hc))

/-- A binding that went wrong: a name alone, or a name and a sign before no number. -/
inductive IsMalformed : List Char → Prop
  | bare {name : List Char} (hne : name ≠ []) (hname : ∀ c ∈ name, isNameChar c = true) :
      IsMalformed name
  | value {name text : List Char} (hne : name ≠ []) (hname : ∀ c ∈ name, isNameChar c = true)
      (htext : ∀ c ∈ text, Text.isBlank c = false) (hnone : ∀ x, ¬ Number.IsWritten text x) :
      IsMalformed (name ++ '=' :: text)

theorem IsMalformed.isWord {word : List Char} (h : IsMalformed word) : IsWord word := by
  cases h with
  | bare hne hname => exact ⟨hne, fun c hc => isBlank_of_isNameChar (hname c hc)⟩
  | value hne hname htext =>
    exact isWord_of_name hne hname (List.forall_mem_cons.2 ⟨by decide, htext⟩)

/-! ## How a word breaks -/

/-- The word starts with a fault, and reading goes on inside it. -/
inductive BreaksTo : List Char → List Char → Prop
  /-- Another character stands in the place of the sign. -/
  | sign (name : List Char) {c : Char} {rest : List Char}
      (hname : ∀ c ∈ name, isNameChar c = true) (hc : isNameChar c = false) (hsign : c ≠ '=')
      (hstart : name = [] → c ≠ '!' ∧ c ≠ '@') : BreaksTo (name ++ c :: rest) rest
  /-- The characters of numbers behind the sign make no number. -/
  | value (name digits : List Char) {rest : List Char}
      (hname : ∀ c ∈ name, isNameChar c = true) (hdigits : ∀ c ∈ digits, isNumberChar c = true)
      (hnone : ∀ x, ¬ Number.IsWritten digits x) (hne : digits ++ rest ≠ [])
      (hrest : ∀ c ∈ rest.head?, isNumberChar c = false) :
      BreaksTo (name ++ '=' :: (digits ++ rest)) rest

/-- A binding that ends before its value: a name, with the sign or without. -/
inductive IsUnfinished : List Char → Prop
  | bare {name : List Char} (hne : name ≠ []) (hname : ∀ c ∈ name, isNameChar c = true) :
      IsUnfinished name
  | signed {name : List Char} (hname : ∀ c ∈ name, isNameChar c = true) :
      IsUnfinished (name ++ ['='])

/-- The word starts with what reads as an entry, whatever follows. -/
inductive StartsEntry : List Char → Prop
  | sign {c : Char} {rest : List Char} (hc : c = '!' ∨ c = '@') : StartsEntry (c :: rest)
  | value (name : List Char) {digits rest : List Char} {x : Float}
      (hname : ∀ c ∈ name, isNameChar c = true) (hdigits : Number.IsWritten digits x)
      (hrest : ∀ c ∈ rest.head?, isNumberChar c = false) :
      StartsEntry (name ++ '=' :: (digits ++ rest))

/-- The word reads as faults up to its end. -/
def IsContained (word : List Char) : Prop := Relation.ReflTransGen BreaksTo word []

/-- The word reads as faults up to its end, or up to a binding without its value. -/
def LeavesNoEntry (word : List Char) : Prop :=
  ∃ remainder, Relation.ReflTransGen BreaksTo word remainder ∧
    (remainder = [] ∨ IsUnfinished remainder)

theorem BreaksTo.isSuffix {word rest : List Char} (h : BreaksTo word rest) :
    rest <:+ word ∧ rest.length < word.length := by
  cases h with
  | @sign name c rest => exact ⟨⟨name ++ [c], by simp⟩, by simp; omega⟩
  | value name digits => exact ⟨⟨name ++ '=' :: digits, by simp⟩, by simp; omega⟩

/-- A word is at its end, is a binding without its value, starts an entry or starts with a
fault. -/
theorem breaksTo_or (word : List Char) :
    (word = [] ∨ IsUnfinished word ∨ StartsEntry word) ∨ ∃ rest, BreaksTo word rest := by
  obtain ⟨hsplit, hname, hend⟩ := Cursor.exists_run isNameChar ⟨[], word⟩
  generalize Cursor.run isNameChar ⟨[], word⟩ = name at hsplit hname
  generalize (Cursor.skip isNameChar ⟨[], word⟩).ahead = behind at hsplit hend
  obtain rfl : word = name ++ behind := hsplit
  cases behind with
  | nil =>
    rw [List.append_nil]
    by_cases hne : name = []
    · exact .inl (.inl hne)
    · exact .inl (.inr (.inl (.bare hne hname)))
  | cons c behind =>
    by_cases hsign : c = '='
    · subst hsign
      obtain ⟨hsplit, hdigits, hrest⟩ := Cursor.exists_run isNumberChar ⟨[], behind⟩
      generalize Cursor.run isNumberChar ⟨[], behind⟩ = digits at hsplit hdigits
      generalize (Cursor.skip isNumberChar ⟨[], behind⟩).ahead = rest at hsplit hrest
      obtain rfl : behind = digits ++ rest := hsplit
      by_cases hne : digits ++ rest = []
      · rw [hne]
        exact .inl (.inr (.inl (.signed hname)))
      · by_cases hvalue : ∃ x, Number.IsWritten digits x
        · obtain ⟨x, hx⟩ := hvalue
          exact .inl (.inr (.inr (.value name hname hx hrest)))
        · exact .inr ⟨rest, .value name digits hname hdigits (not_exists.1 hvalue) hne hrest⟩
    · by_cases hstart : name = [] ∧ (c = '!' ∨ c = '@')
      · obtain ⟨rfl, hc⟩ := hstart
        exact .inl (.inr (.inr (.sign hc)))
      · refine .inr ⟨behind, .sign name hname (hend c rfl) hsign fun hnil => ?_⟩
        exact not_or.1 fun hc => hstart ⟨hnil, hc⟩

/-- **A word reads as faults up to a remainder**, which is empty, or a binding without its
value, or starts with what reads as an entry. -/
theorem exists_remainder (word : List Char) :
    ∃ remainder, Relation.ReflTransGen BreaksTo word remainder ∧
      (remainder = [] ∨ IsUnfinished remainder ∨ StartsEntry remainder) := by
  induction hlength : word.length using Nat.strong_induction_on generalizing word with
  | _ n ih =>
    rcases breaksTo_or word with hdone | ⟨rest, hbreak⟩
    · exact ⟨word, .refl, hdone⟩
    · obtain ⟨remainder, hsteps, hdone⟩ := ih _ (hlength ▸ hbreak.isSuffix.2) rest rfl
      exact ⟨remainder, .head hbreak hsteps, hdone⟩

/-- A binding that ends before its value does not break inside. -/
theorem IsUnfinished.not_breaksTo {word rest : List Char} (h : IsUnfinished word) :
    ¬ BreaksTo word rest := by
  have hequals : ¬ isNameChar '=' = true := by decide
  intro hbreak
  cases h with
  | bare _ hname =>
    cases hbreak with
    | sign _ _ hc =>
      rw [hname _ (List.mem_append_right _ List.mem_cons_self)] at hc
      cases hc
    | value => exact hequals (hname _ (List.mem_append_right _ List.mem_cons_self))
  | @signed name hname =>
    generalize hword : name ++ ['='] = word at hbreak
    cases hbreak with
    | @sign name' c _ _ hc hsign =>
      have hmem : c ∈ name ++ ['='] := by
        rw [hword]
        exact List.mem_append_right _ List.mem_cons_self
      rcases List.mem_append.1 hmem with hmem | hmem
      · rw [hname c hmem] at hc
        cases hc
      · exact hsign (List.mem_singleton.1 hmem)
    | value name' digits _ _ _ hne =>
      have hnot : '=' ∉ name := fun hmem => hequals (hname _ hmem)
      obtain ⟨-, -, hnil⟩ := (List.append_cons_inj_of_notMem hnot List.not_mem_nil).1 hword
      exact hne hnil.symm

theorem IsUnfinished.not_isContained {word : List Char} (h : IsUnfinished word) (hne : word ≠ []) :
    ¬ IsContained word := by
  intro hcontained
  rcases Relation.ReflTransGen.cases_head hcontained with heq | ⟨rest, hbreak, -⟩
  · exact hne heq
  · exact h.not_breaksTo hbreak

/-! ## How a broken word is read -/

/-- What holds of the first characters of two texts holds of the first of both together. -/
theorem forall_mem_head?_append {p : Char → Prop} {text rest : List Char}
    (htext : ∀ c ∈ text.head?, p c) (hrest : ∀ c ∈ rest.head?, p c) :
    ∀ c ∈ (text ++ rest).head?, p c := by
  cases text with
  | nil => exact hrest
  | cons d text => exact htext

namespace Cursor

section Breaks

variable {name digits word remainder after blanks : List Char}

/-- A name before something other than a sign is a fault, and takes a character with it. -/
theorem binding_missing (behind after : List Char) (hname : ∀ c ∈ name, isNameChar c = true)
    (hend : ∀ c ∈ after.head?, isNameChar c = false)
    (hsign : (after.dropWhile Text.isBlank).head? ≠ some '=') :
    ∃ fault, binding ⟨behind, name ++ after⟩ =
      (.fault fault, advance (skip Text.isBlank ⟨name.reverse ++ behind, after⟩)) := by
  unfold binding
  dsimp only
  rw [run_append _ hname hend, skip_append _ hname hend]
  exact ⟨_, if_neg hsign⟩

theorem entry?_name (behind after : List Char) (hne : name ≠ [])
    (hname : ∀ c ∈ name, isNameChar c = true) :
    entry? ⟨behind, name ++ after⟩ = some (binding ⟨behind, name ++ after⟩) := by
  obtain ⟨c, name, rfl⟩ := List.exists_cons_of_ne_nil hne
  have hc := hname c List.mem_cons_self
  refine entry?_eq_binding (isBlank_of_isNameChar hc) ?_ ?_
  · rintro rfl
    cases hc
  · rintro rfl
    cases hc

theorem valueEntry_eq_fault (name : List Char) (hdigits : ∀ c ∈ digits, isNumberChar c = true)
    (hnone : ∀ x, ¬ Number.IsWritten digits x) :
    valueEntry name digits =
      .fault (.invalidNumber (String.ofList name) (String.ofList digits)) := by
  have hread : Number.ofText? digits = none := by
    refine Option.eq_none_iff_forall_ne_some.2 fun x hx => hnone x ?_
    exact (Number.ofText?_eq_some_iff fun c hc => isNumberChar_iff.1 (hdigits c hc)).1 hx
  unfold valueEntry
  rw [hread]

theorem valueEntry_eq_binding (name : List Char) {x : Float} (hdigits : Number.IsWritten digits x) :
    valueEntry name digits = .binding (String.ofList name) x := by
  unfold valueEntry
  rw [hdigits.ofText?]

/-- A word that breaks is read as the fault, and then from where the fault ends. -/
theorem entry?_of_breaksTo (h : BreaksTo word remainder)
    (hword : ∀ c ∈ word, Text.isBlank c = false) (hafter : ∀ c ∈ after.head?, Text.isBlank c = true)
    (behind : List Char) : ∃ fault behind',
      entry? ⟨behind, word ++ after⟩ = some (.fault fault, ⟨behind', remainder ++ after⟩) := by
  cases h with
  | @sign name c _ hname hc hsign hstart =>
    have hblank := hword c (List.mem_append_right _ List.mem_cons_self)
    have hdrop : (c :: (remainder ++ after)).dropWhile Text.isBlank = c :: (remainder ++ after) :=
      List.dropWhile_cons_of_neg (Bool.not_eq_true _ ▸ hblank)
    obtain ⟨fault, hbinding⟩ := binding_missing behind (c :: (remainder ++ after)) hname
      (by rintro d ⟨⟩; exact hc) (by rw [hdrop]; rintro ⟨⟩; exact hsign rfl)
    have hentry : entry? ⟨behind, name ++ c :: (remainder ++ after)⟩ =
        some (binding ⟨behind, name ++ c :: (remainder ++ after)⟩) := by
      by_cases hne : name = []
      · subst hne
        exact entry?_eq_binding hblank (hstart rfl).1 (hstart rfl).2
      · exact entry?_name behind _ hne hname
    rw [skip_eq_self _ (by rintro d ⟨⟩; exact hblank), advance_cons] at hbinding
    rw [List.append_assoc, List.cons_append, hentry, hbinding]
    exact ⟨fault, _, rfl⟩
  | @value name digits _ hname hdigits hnone hne hrest =>
    have hstart : ∀ c ∈ (digits ++ (remainder ++ after)).head?, Text.isBlank c = false := by
      obtain ⟨d, value, hvalue⟩ := List.exists_cons_of_ne_nil hne
      rw [← List.append_assoc, hvalue]
      rintro c ⟨⟩
      refine hword d (List.mem_append_right _ (List.mem_cons_of_mem _ ?_))
      rw [hvalue]
      exact List.mem_cons_self
    have hend : ∀ c ∈ (remainder ++ after).head?, isNumberChar c = false :=
      forall_mem_head?_append hrest fun c hc => isNumberChar_of_isBlank (hafter c hc)
    rw [List.append_assoc, List.cons_append, List.append_assoc,
      entry?_value hname hdigits hstart hend, valueEntry_eq_fault name hdigits hnone]
    exact ⟨_, _, rfl⟩

/-- **A word is read as faults**, one for each of its breaks, up to its remainder. -/
theorem entries_of_breaksTo (h : Relation.ReflTransGen BreaksTo word remainder)
    (hword : ∀ c ∈ word, Text.isBlank c = false) (hafter : ∀ c ∈ after.head?, Text.isBlank c = true)
    (behind : List Char) : ∃ faults behind',
      entries ⟨behind, word ++ after⟩ =
        faults.map LineEntry.fault ++ entries ⟨behind', remainder ++ after⟩ ∧
      (faults = [] → remainder = word) := by
  induction h using Relation.ReflTransGen.head_induction_on generalizing behind with
  | refl => exact ⟨[], behind, rfl, fun _ => rfl⟩
  | @head word rest hbreak _ ih =>
    obtain ⟨fault, behind', hentry⟩ := entry?_of_breaksTo hbreak hword hafter behind
    obtain ⟨faults, behind'', hentries, -⟩ :=
      ih (fun c hc => hword c (hbreak.isSuffix.1.subset hc)) behind'
    refine ⟨fault :: faults, behind'', ?_, fun hnil => nomatch hnil⟩
    rw [entries_of_some hentry, hentries, List.map_cons, List.cons_append]

/-- What starts an entry is read as one. -/
theorem entry?_of_startsEntry (h : StartsEntry word) (behind after : List Char)
    (hafter : ∀ c ∈ after.head?, Text.isBlank c = true) :
    ∃ e c, entry? ⟨behind, word ++ after⟩ = some (e, c) ∧ e.fault? = none := by
  cases h with
  | @sign c rest hc =>
    have hskip : skip Text.isBlank ⟨behind, c :: (rest ++ after)⟩ =
        ⟨behind, c :: (rest ++ after)⟩ := by
      refine skip_eq_self behind ?_
      rintro d ⟨⟩
      rcases hc with rfl | rfl
      · decide
      · decide
    unfold entry?
    rw [List.cons_append, hskip]
    rcases hc with rfl | rfl
    · exact ⟨_, _, rfl, rfl⟩
    · exact ⟨_, _, rfl, rfl⟩
  | @value name digits rest x hname hdigits hrest =>
    have hend : ∀ c ∈ (rest ++ after).head?, isNumberChar c = false :=
      forall_mem_head?_append hrest fun c hc => isNumberChar_of_isBlank (hafter c hc)
    rw [List.append_assoc, List.cons_append, List.append_assoc,
      entry?_value hname (fun c hc => isNumberChar_iff.2 (hdigits.isNumeric c hc))
        (isBlank_head_digits hdigits) hend, valueEntry_eq_binding name hdigits]
    exact ⟨_, _, rfl, rfl⟩

theorem entries_blanks (behind rest : List Char) (hblanks : ∀ c ∈ blanks, Text.isBlank c = true) :
    entries ⟨behind, blanks ++ rest⟩ = entries ⟨blanks.reverse ++ behind, rest⟩ := by
  rw [entries_eq, entry?_blanks hblanks, ← entries_eq]

/-- A binding without its value is a fault at the end of a line. -/
theorem entries_of_isUnfinished (h : IsUnfinished word)
    (hblanks : ∀ c ∈ blanks, Text.isBlank c = true) (behind : List Char) :
    ∃ fault, entries ⟨behind, word ++ blanks⟩ = [.fault fault] := by
  cases h with
  | bare hne hname =>
    have hdrop : blanks.dropWhile Text.isBlank = [] := List.dropWhile_eq_nil_iff.2 hblanks
    obtain ⟨fault, hbinding⟩ := binding_missing behind blanks hname
      (fun c hc => isNameChar_eq_false (.inl (hblanks c (List.mem_of_mem_head? hc))))
      (by rw [hdrop]; exact fun hnone => nomatch hnone)
    have hend : (advance (skip Text.isBlank ⟨word.reverse ++ behind, blanks⟩)).ahead = [] := by
      refine List.eq_nil_of_length_eq_zero ?_
      rw [length_advance]
      show (blanks.dropWhile Text.isBlank).length - 1 = 0
      rw [hdrop]
      rfl
    rw [entries_of_some (entry?_name behind blanks hne hname |>.trans (congrArg some hbinding))]
    generalize advance _ = rest at hend
    obtain ⟨behind', ahead⟩ := rest
    cases hend
    exact ⟨fault, congrArg _ (entries_end behind')⟩
  | @signed name hname =>
    have hentry : entry? ⟨behind, name ++ ([] ++ '=' :: (blanks ++ ([] ++ [])))⟩ =
        some (valueEntry name [], _) :=
      entry?_spaced behind hname (List.forall_mem_nil _) hblanks (List.forall_mem_nil _)
        (fun _ hc => nomatch hc) (fun _ hc => nomatch hc)
    have htext : name ++ ['='] ++ blanks = name ++ ([] ++ '=' :: (blanks ++ ([] ++ []))) := by
      rw [List.append_assoc, List.append_nil, List.append_nil]
      rfl
    rw [htext, entries_of_some hentry, entries_end]
    exact ⟨_, rfl⟩

end Breaks

end Cursor

/-! ## Lines of tokens and a word -/

theorem IsToken.exists_readsAs {token : List Char} (h : IsToken token) :
    ∃ e, Cursor.ReadsAs token e := by
  cases h with
  | library _ hname => exact ⟨_, Cursor.readsAs_library hname⟩
  | hint _ hname => exact ⟨_, Cursor.readsAs_hint hname⟩
  | @binding name digits x _ hname hdigits =>
    refine ⟨_, Cursor.readsAs_value hname
      (fun c hc => isNumberChar_iff.2 (hdigits.isNumeric c hc)) ?_⟩
    rintro rfl
    have hread := hdigits.ofText?
    cases hread

namespace Cursor

variable {word remainder : List Char} {words : List (List Char)} {text : List Char}

theorem entries_of_hasWords_nil (h : HasWords text []) (behind : List Char) :
    entries ⟨behind, text⟩ = [] := by
  cases h with
  | nil hblanks =>
    rw [← List.append_nil text, entries_blanks behind [] hblanks, entries_end]

/-- Tokens are read one by one, and alike in every text that starts with them. -/
theorem exists_entries_of_tokens {tokens : List (List Char)} (h : ∀ t ∈ tokens, IsToken t) :
    ∃ es, ∀ {text words}, HasWords text (tokens ++ words) → ∀ behind, ∃ text' behind',
      HasWords text' words ∧ entries ⟨behind, text⟩ = es ++ entries ⟨behind', text'⟩ := by
  induction tokens with
  | nil => exact ⟨[], fun {text _} htext behind => ⟨text, behind, htext, rfl⟩⟩
  | cons token tokens ih =>
    obtain ⟨htoken, htokens⟩ := List.forall_mem_cons.1 h
    obtain ⟨e, hreads⟩ := htoken.exists_readsAs
    obtain ⟨es, hes⟩ := ih htokens
    refine ⟨e :: es, fun htext behind => ?_⟩
    cases htext with
    | @cons blanks _ rest _ hblanks _ hrest htail =>
      obtain ⟨text', behind', hwords, hentries⟩ :=
        hes htail (token.reverse ++ (blanks.reverse ++ behind))
      refine ⟨text', behind', hwords, ?_⟩
      rw [entries_blanks behind _ hblanks, entries_of_some (hreads _ rest hrest), hentries,
        List.cons_append]

/-- The first word of a text is read as faults, up to its remainder. -/
theorem entries_of_hasWords_cons (htext : HasWords text (word :: words))
    (h : Relation.ReflTransGen BreaksTo word remainder) (behind : List Char) :
    ∃ faults rest behind', entries ⟨behind, text⟩ =
        faults.map LineEntry.fault ++ entries ⟨behind', remainder ++ rest⟩ ∧
      HasWords rest words ∧ (faults = [] → remainder = word) := by
  cases htext with
  | @cons blanks _ rest _ hblanks hword hrest htail =>
    obtain ⟨faults, behind', hentries, hnil⟩ :=
      entries_of_breaksTo h hword.isBlank hrest (blanks.reverse ++ behind)
    refine ⟨faults, rest, behind', ?_, htail, hnil⟩
    rw [entries_blanks behind _ hblanks, hentries]

end Cursor

namespace Session

/-- Faults say nothing. -/
theorem ofEntries_faults (es es' : List LineEntry) (faults : List LineFault) :
    ofEntries (es ++ (faults.map LineEntry.fault ++ es')) = ofEntries (es ++ es') := by
  have hfaults {β : Type} (f : LineEntry → Option β) (hf : ∀ fault, f (.fault fault) = none) :
      (es ++ (faults.map LineEntry.fault ++ es')).filterMap f = (es ++ es').filterMap f := by
    have hnil : (faults.map LineEntry.fault).filterMap f = [] := by
      rw [List.filterMap_map]
      exact List.filterMap_eq_nil_iff.2 fun fault _ => hf fault
    rw [List.filterMap_append, List.filterMap_append, List.filterMap_append, hnil, List.nil_append]
  unfold ofEntries
  rw [hfaults _ fun _ => rfl, hfaults _ fun _ => rfl, hfaults _ fun _ => rfl]

/-- An entry says something. -/
theorem ofEntries_cons_ne {e : LineEntry} (he : e.fault? = none) (es : List LineEntry) :
    ofEntries (e :: es) ≠ ofEntries [] := by
  intro heq
  cases e with
  | library name =>
    have hlibraries := congrArg Session.libraries heq
    cases hlibraries
  | hint name =>
    have hhints := congrArg Session.hints heq
    cases hhints
  | binding name x =>
    have hvalues : (ofEntries (.binding name x :: es)).values.get? name = none :=
      congrArg (·.values.get? name) heq
    have hget : (ofEntries (.binding name x :: es)).values.get? name =
        ((name, x) :: es.filterMap LineEntry.binding?).reverse.lookup name :=
      Bindings.get?_ofList _ name
    rw [hget, List.lookup_eq_none_iff] at hvalues
    have hne : (name != name) = true := hvalues (name, x) (List.mem_reverse.2 List.mem_cons_self)
    rw [bne_self_eq_false] at hne
    cases hne
  | fault f => cases he

/-- A line of some words, of which one is between the others, has a fault, and says what
a line of the others says. -/
def SkipsBetween (before : List (List Char)) (word : List Char) (after : List (List Char)) : Prop :=
  ∀ line alone : String, HasWords line.toList (before ++ word :: after) →
    HasWords alone.toList (before ++ after) →
    (read line).faults ≠ [] ∧ (read line).session = (read alone).session

variable {before after : List (List Char)} {word remainder : List Char}

/-- A word that is read as faults alone is skipped. -/
theorem skipsBetween_of_faults (hbefore : ∀ t ∈ before, IsToken t) (hafter : ∀ t ∈ after, IsToken t)
    (hword : ∀ {text}, HasWords text (word :: after) → ∀ behind, ∃ faults text' behind',
      faults ≠ [] ∧ HasWords text' after ∧ Cursor.entries ⟨behind, text⟩ =
        faults.map LineEntry.fault ++ Cursor.entries ⟨behind', text'⟩) :
    SkipsBetween before word after := by
  obtain ⟨es, hes⟩ := Cursor.exists_entries_of_tokens hbefore
  obtain ⟨es', hes'⟩ := Cursor.exists_entries_of_tokens hafter
  have hlater {text} (htext : HasWords text after) (behind : List Char) :
      Cursor.entries ⟨behind, text⟩ = es' := by
    rw [← List.append_nil after] at htext
    obtain ⟨rest, behind', hrest, hentries⟩ := hes' htext behind
    rw [hentries, Cursor.entries_of_hasWords_nil hrest, List.append_nil]
  intro line alone hline halone
  obtain ⟨text, behind, htext, hentries⟩ := hes hline.trim []
  obtain ⟨faults, text', behind', hne, htext', hfaults⟩ := hword htext behind
  obtain ⟨rest, behind'', hrest, halone⟩ := hes halone.trim []
  have hlineEntries : lineEntries line = es ++ (faults.map LineEntry.fault ++ es') := by
    rw [← hlater htext' behind', ← hfaults]
    exact hentries
  have haloneEntries : lineEntries alone = es ++ es' := by
    rw [← hlater hrest behind'']
    exact halone
  constructor
  · obtain ⟨fault, hfault⟩ := List.exists_mem_of_ne_nil _ hne
    show (lineEntries line).filterMap LineEntry.fault? ≠ []
    rw [hlineEntries]
    refine List.ne_nil_of_mem (List.mem_filterMap.2 ⟨.fault fault, ?_, rfl⟩)
    exact List.mem_append_right _ (List.mem_append_left _ (List.mem_map_of_mem hfault))
  · show ofEntries (lineEntries line) = ofEntries (lineEntries alone)
    rw [hlineEntries, haloneEntries, ofEntries_faults]

theorem skipsBetween_of_isContained (hne : word ≠ []) (h : IsContained word)
    (hbefore : ∀ t ∈ before, IsToken t) (hafter : ∀ t ∈ after, IsToken t) :
    SkipsBetween before word after := by
  refine skipsBetween_of_faults hbefore hafter fun htext behind => ?_
  obtain ⟨faults, text', behind', hentries, htext', hnil⟩ :=
    Cursor.entries_of_hasWords_cons htext h behind
  exact ⟨faults, text', behind', fun heq => hne (hnil heq).symm, htext', hentries⟩

/-- At the end of a line a binding without its value is skipped too. -/
theorem skipsBetween_of_isUnfinished (h : Relation.ReflTransGen BreaksTo word remainder)
    (hcut : IsUnfinished remainder) (hbefore : ∀ t ∈ before, IsToken t) :
    SkipsBetween before word [] := by
  refine skipsBetween_of_faults hbefore (List.forall_mem_nil _) fun htext behind => ?_
  obtain ⟨faults, text', behind', hentries, htext', -⟩ :=
    Cursor.entries_of_hasWords_cons htext h behind
  cases htext' with
  | nil hblanks =>
    obtain ⟨fault, hfault⟩ := Cursor.entries_of_isUnfinished hcut hblanks behind'
    refine ⟨faults ++ [fault], [], [], List.append_ne_nil_of_right_ne_nil _ (List.cons_ne_nil _ _),
      .nil (List.forall_mem_nil _), ?_⟩
    rw [hentries, hfault, Cursor.entries_end, List.append_nil, List.map_append]
    rfl

/-! ## What a remainder takes -/

/-- Words joined by blanks, as a line. -/
def joined (words : List (List Char)) : String := String.ofList ([' '].intercalate words)

theorem hasWords_joined {words : List (List Char)} (h : ∀ w ∈ words, IsWord w) :
    HasWords (joined words).toList words := by
  rw [joined, String.toList_ofList]
  exact .intercalate h

theorem lineEntries_joined {words : List (List Char)} (h : ∀ w ∈ words, IsWord w) :
    lineEntries (joined words) = Cursor.entries ⟨[], [' '].intercalate words⟩ :=
  lineEntries_eq (String.toList_ofList ..) fun w hw => ⟨(h w hw).ne_nil, (h w hw).isBlank⟩

/-- What is read from the remainder on has to say what the tokens behind it say. -/
theorem SkipsBetween.ofEntries_remainder (h : SkipsBetween [] word after) (hword : IsWord word)
    (hafter : ∀ t ∈ after, IsToken t) (hsteps : Relation.ReflTransGen BreaksTo word remainder) :
    ∃ behind, ofEntries (Cursor.entries ⟨behind, remainder ++ Cursor.wordsBehind after⟩) =
      ofEntries (Cursor.entries ⟨[], [' '].intercalate after⟩) := by
  have hrest : ∀ w ∈ after, IsWord w := fun t ht => (hafter t ht).isWord
  have hwords : ∀ w ∈ word :: after, IsWord w := List.forall_mem_cons.2 ⟨hword, hrest⟩
  obtain ⟨faults, behind, hentries, -⟩ :=
    Cursor.entries_of_breaksTo hsteps hword.isBlank (Cursor.isBlank_wordsBehind after) []
  obtain ⟨-, hsession⟩ := h _ _ (hasWords_joined hwords) (hasWords_joined hrest)
  have hread : ofEntries (lineEntries (joined (word :: after))) =
      ofEntries (lineEntries (joined after)) := hsession
  rw [lineEntries_joined hwords, lineEntries_joined hrest, Cursor.intercalate_cons,
    hentries] at hread
  exact ⟨behind, (ofEntries_faults [] _ faults).symm.trans hread⟩

theorem not_skipsBetween_of_startsEntry (hword : IsWord word)
    (hsteps : Relation.ReflTransGen BreaksTo word remainder) (hstarts : StartsEntry remainder) :
    ¬ SkipsBetween [] word [] := by
  intro h
  obtain ⟨behind, hread⟩ := h.ofEntries_remainder hword (List.forall_mem_nil _) hsteps
  obtain ⟨e, c, hentry, he⟩ :=
    Cursor.entry?_of_startsEntry hstarts behind [] (fun _ hc => nomatch hc)
  have hempty : Cursor.entries ⟨[], [' '].intercalate []⟩ = [] := Cursor.entries_end []
  rw [Cursor.wordsBehind, Cursor.entries_of_some hentry, hempty] at hread
  exact ofEntries_cons_ne he _ hread

theorem isToken_catalog : IsToken ['!', 'a'] :=
  .library (List.cons_ne_nil _ _) (List.forall_mem_singleton.2 rfl)

/-- A name without its sign takes the sign of a catalog, so that the catalog is lost. -/
theorem not_skipsBetween_of_bare (hword : IsWord word)
    (hsteps : Relation.ReflTransGen BreaksTo word remainder) (hne : remainder ≠ [])
    (hname : ∀ c ∈ remainder, isNameChar c = true) : ¬ SkipsBetween [] word [['!', 'a']] := by
  intro h
  obtain ⟨behind, hread⟩ :=
    h.ofEntries_remainder hword (List.forall_mem_singleton.2 isToken_catalog) hsteps
  obtain ⟨fault, hbinding⟩ := Cursor.binding_missing behind [' ', '!', 'a'] hname
    (by rintro c ⟨⟩; rfl) (by decide)
  obtain ⟨fault', hlater⟩ := Cursor.entries_of_isUnfinished
    (.bare (List.cons_ne_nil 'a' []) (List.forall_mem_singleton.2 rfl)) (List.forall_mem_nil _)
    ('!' :: ' ' :: (remainder.reverse ++ behind))
  have hentry : Cursor.entry? ⟨behind, remainder ++ [' ', '!', 'a']⟩ =
      some (.fault fault, ⟨'!' :: ' ' :: (remainder.reverse ++ behind), ['a']⟩) :=
    (Cursor.entry?_name behind _ hne hname).trans (congrArg some hbinding)
  have htaken : Cursor.entries ⟨behind, remainder ++ Cursor.wordsBehind [['!', 'a']]⟩ =
      [.fault fault, .fault fault'] :=
    (Cursor.entries_of_some hentry).trans (congrArg _ hlater)
  have halone : Cursor.entries ⟨[], [' '].intercalate [['!', 'a']]⟩ = [.library "a"] :=
    @Cursor.entries_words [(['!', 'a'], .library "a")]
      (List.forall_mem_singleton.2 (Cursor.readsAs_library (List.forall_mem_singleton.2 rfl))) []
  rw [htaken, halone] at hread
  have hlibraries := congrArg Session.libraries hread
  cases hlibraries

theorem isToken_digits : IsToken ['1', '=', '1'] :=
  .binding (List.cons_ne_nil '1' []) (List.forall_mem_singleton.2 rfl) (isWritten_digit '1' rfl)

/-- A name and its sign take the name of a binding for their value, so that the empty name
is bound. -/
theorem not_skipsBetween_of_signed {name : List Char} (hword : IsWord word)
    (hsteps : Relation.ReflTransGen BreaksTo word (name ++ ['=']))
    (hname : ∀ c ∈ name, isNameChar c = true) : ¬ SkipsBetween [] word [['1', '=', '1']] := by
  intro h
  have hvalue (name : List Char) :
      Cursor.valueEntry name ['1'] = digitBinding (String.ofList name) '1' :=
    Cursor.valueEntry_eq_binding name (isWritten_digit '1' rfl)
  have hdigits : ∀ c ∈ ['1'], isNumberChar c = true := List.forall_mem_singleton.2 rfl
  obtain ⟨behind, hread⟩ :=
    h.ofEntries_remainder hword (List.forall_mem_singleton.2 isToken_digits) hsteps
  have hfirst : Cursor.entries ⟨behind, name ++ ([] ++ '=' :: ([' '] ++ (['1'] ++ ['=', '1'])))⟩ =
      Cursor.valueEntry name ['1'] :: _ :=
    Cursor.entries_of_some (Cursor.entry?_spaced behind hname (List.forall_mem_nil _)
      (List.forall_mem_singleton.2 rfl) hdigits (by rintro c ⟨⟩; rfl) (by rintro c ⟨⟩; rfl))
  have hsecond (behind : List Char) :
      Cursor.entries ⟨behind, [] ++ '=' :: (['1'] ++ [])⟩ = Cursor.valueEntry [] ['1'] :: _ :=
    Cursor.entries_of_some (Cursor.entry?_value (List.forall_mem_nil _) hdigits
      (by rintro c ⟨⟩; rfl) (fun _ hc => nomatch hc))
  have htaken : Cursor.entries ⟨behind, name ++ ['='] ++ Cursor.wordsBehind [['1', '=', '1']]⟩ =
      [digitBinding (String.ofList name) '1', digitBinding "" '1'] := by
    rw [List.append_assoc]
    refine hfirst.trans (congrArg₂ List.cons (hvalue name) ?_)
    exact (hsecond _).trans (congrArg₂ List.cons (hvalue []) (Cursor.entries_end _))
  have halone : Cursor.entries ⟨[], [' '].intercalate [['1', '=', '1']]⟩ =
      [digitBinding "1" '1'] := by
    have hname : ∀ c ∈ ['1'], isNameChar c = true := List.forall_mem_singleton.2 rfl
    have hreads := Cursor.readsAs_value hname hdigits (List.cons_ne_nil _ _)
    rw [hvalue] at hreads
    exact @Cursor.entries_words [(['1', '=', '1'], digitBinding "1" '1')]
      (List.forall_mem_singleton.2 hreads) []
  rw [htaken, halone] at hread
  have hget := congrArg (·.values.get? "") hread
  have hempty : (ofEntries [digitBinding "1" '1']).values.get? "" = none :=
    Bindings.get?_ofList _ ""
  have hbound : (ofEntries [digitBinding (String.ofList name) '1',
      digitBinding "" '1']).values.get? "" = some (Number.ofNumeral false ['1'] []) :=
    Bindings.get?_ofList _ ""
  rw [hempty, hbound] at hget
  cases hget

/-! ## Where a word is skipped -/

/-- A word that is skipped everywhere leaves nothing, for some tokens show what it leaves. -/
theorem isContained_of_skips (hword : IsWord word)
    (h : ∀ before after, (∀ t ∈ before ++ after, IsToken t) → SkipsBetween before word after) :
    IsContained word := by
  obtain ⟨remainder, hsteps, rfl | hcut | hstarts⟩ := exists_remainder word
  · exact hsteps
  · cases hcut with
    | bare hne hname =>
      have hskips := h [] [['!', 'a']] (List.forall_mem_singleton.2 isToken_catalog)
      exact absurd hskips (not_skipsBetween_of_bare hword hsteps hne hname)
    | signed hname =>
      have hskips := h [] [['1', '=', '1']] (List.forall_mem_singleton.2 isToken_digits)
      exact absurd hskips (not_skipsBetween_of_signed hword hsteps hname)
  · have hskips := h [] [] (List.forall_mem_nil _)
    exact absurd hskips (not_skipsBetween_of_startsEntry hword hsteps hstarts)

/-- An entry that a word leaves shows in a line of the word alone. -/
theorem leavesNoEntry_of_skips (hword : IsWord word) (h : SkipsBetween [] word []) :
    LeavesNoEntry word := by
  obtain ⟨remainder, hsteps, hnil | hcut | hstarts⟩ := exists_remainder word
  · exact ⟨remainder, hsteps, .inl hnil⟩
  · exact ⟨remainder, hsteps, .inr hcut⟩
  · exact absurd h (not_skipsBetween_of_startsEntry hword hsteps hstarts)

theorem skipsBetween_of_leavesNoEntry (hne : word ≠ []) (h : LeavesNoEntry word)
    (hbefore : ∀ t ∈ before, IsToken t) : SkipsBetween before word [] := by
  obtain ⟨remainder, hsteps, rfl | hcut⟩ := h
  · exact skipsBetween_of_isContained hne hsteps hbefore (List.forall_mem_nil _)
  · exact skipsBetween_of_isUnfinished hsteps hcut hbefore

/-- **Where a malformed word is skipped.** It is, among whatever tokens, exactly if it reads
as faults up to its end; and behind whatever tokens at the end of a line, exactly if a
binding without its value is all that may be left. So a name alone, or a name and a sign,
are skipped at the end of every line, but not in every place. -/
theorem skipped_iff (hmalformed : IsMalformed word) :
    ((∀ before after, (∀ t ∈ before ++ after, IsToken t) → SkipsBetween before word after) ↔
      IsContained word) ∧
    ((∀ before, (∀ t ∈ before, IsToken t) → SkipsBetween before word []) ↔ LeavesNoEntry word) ∧
    (IsUnfinished word → LeavesNoEntry word ∧ ¬ IsContained word) := by
  have hword := hmalformed.isWord
  refine ⟨⟨isContained_of_skips hword, fun h before after htokens => ?_⟩, ⟨fun h => ?_, ?_⟩, ?_⟩
  · obtain ⟨hbefore, hafter⟩ := List.forall_mem_append.1 htokens
    exact skipsBetween_of_isContained hword.ne_nil h hbefore hafter
  · exact leavesNoEntry_of_skips hword (h [] (List.forall_mem_nil _))
  · exact fun h before hbefore => skipsBetween_of_leavesNoEntry hword.ne_nil h hbefore
  · exact fun hcut => ⟨⟨word, .refl, .inr hcut⟩, hcut.not_isContained hword.ne_nil⟩

theorem isToken_neighbours : ∀ t ∈ ["!slopes".toList, "yi=3".toList], IsToken t := by
  have hcatalog : IsToken ('!' :: "slopes".toList) :=
    .library (by decide) (List.all_eq_true.1 rfl)
  have hvalue : IsToken ("yi".toList ++ '=' :: ['3']) :=
    .binding (by decide) (List.all_eq_true.1 rfl) (isWritten_digit '3' rfl)
  exact List.forall_mem_cons.2 ⟨hcatalog, List.forall_mem_singleton.2 hvalue⟩

theorem hasWords_neighbours :
    HasWords "!slopes yi=3".toList ["!slopes".toList, "yi=3".toList] :=
  .intercalate fun t ht => (isToken_neighbours t ht).isWord

/-- A number with two points is skipped in the middle of a line. -/
theorem skipped_points : IsMalformed "b=1.2.3".toList ∧
    (read "!slopes b=1.2.3 yi=3").faults ≠ [] ∧
    (read "!slopes b=1.2.3 yi=3").session = (read "!slopes yi=3").session := by
  have hnone : ∀ x, ¬ Number.IsWritten "1.2.3".toList x := fun _ hx => nomatch hx.ofText?
  have hname : ∀ c ∈ "b".toList, isNameChar c = true := List.all_eq_true.1 rfl
  have hdigits : ∀ c ∈ "1.2.3".toList, isNumberChar c = true := List.all_eq_true.1 rfl
  have hmalformed : IsMalformed ("b".toList ++ '=' :: "1.2.3".toList) :=
    .value (by decide) hname (fun c hc => isBlank_of_isNumberChar (hdigits c hc)) hnone
  have hcontained : IsContained "b=1.2.3".toList :=
    .single (.value "b".toList "1.2.3".toList hname hdigits hnone (by decide)
      (fun _ hc => nomatch hc))
  obtain ⟨hcatalog, hvalue⟩ := List.forall_mem_cons.1 isToken_neighbours
  have hline : HasWords "!slopes b=1.2.3 yi=3".toList
      ["!slopes".toList, "b=1.2.3".toList, "yi=3".toList] :=
    .intercalate (List.forall_mem_cons.2 ⟨hcatalog.isWord,
      List.forall_mem_cons.2 ⟨hmalformed.isWord, fun t ht => (hvalue t ht).isWord⟩⟩)
  exact ⟨hmalformed, (skipped_iff hmalformed).1.2 hcontained ["!slopes".toList] ["yi=3".toList]
    isToken_neighbours _ _ hline hasWords_neighbours⟩

/-- A name takes the sign of the catalog behind it, and the catalog's name takes the first
letter of the name that is bound. -/
theorem bare_takes : IsMalformed "xi".toList ∧
    (∀ t ∈ ["!slopes".toList, "yi=3".toList], IsToken t) ∧
    lineEntries "xi !slopes yi=3" =
      [.fault (.missingEquals "xi" "...xi ![here]slope..."),
        .fault (.missingEquals "slopes" "...pes y[here]i=3..."), digitBinding "i" '3'] ∧
    ¬ SkipsBetween [] "xi".toList ["!slopes".toList, "yi=3".toList] := by
  have hfirst : Cursor.entry? (Cursor.start (Text.trim "xi !slopes yi=3".toList)) =
      some (.fault (.missingEquals "xi" "...xi ![here]slope..."),
        ⟨"! ix".toList, "slopes yi=3".toList⟩) := by decide +kernel
  have hsecond : Cursor.entry? ⟨"! ix".toList, "slopes yi=3".toList⟩ =
      some (.fault (.missingEquals "slopes" "...pes y[here]i=3..."),
        ⟨"y sepols! ix".toList, "i=3".toList⟩) := by decide +kernel
  have hthird : Cursor.entry? ⟨"y sepols! ix".toList, "i=3".toList⟩ =
      some (digitBinding "i" '3', ⟨"3=iy sepols! ix".toList, []⟩) := by decide +kernel
  have hentries : lineEntries "xi !slopes yi=3" = _ := Cursor.entries_of_some hfirst
  rw [Cursor.entries_of_some hsecond, Cursor.entries_of_some hthird, Cursor.entries_end] at hentries
  have hmalformed : IsMalformed "xi".toList := .bare (by decide) (List.all_eq_true.1 rfl)
  refine ⟨hmalformed, isToken_neighbours, hentries, fun hskips => ?_⟩
  have hline : HasWords "xi !slopes yi=3".toList
      ["xi".toList, "!slopes".toList, "yi=3".toList] :=
    .intercalate (List.forall_mem_cons.2
      ⟨hmalformed.isWord, fun t ht => (isToken_neighbours t ht).isWord⟩)
  obtain ⟨-, hsession⟩ := hskips _ _ hline hasWords_neighbours
  have hcatalog : Cursor.entry? (Cursor.start (Text.trim "!slopes yi=3".toList)) =
      some (.library "slopes", ⟨"sepols!".toList, " yi=3".toList⟩) := by decide +kernel
  have halone : lineEntries "!slopes yi=3" = _ := Cursor.entries_of_some hcatalog
  have hlibraries : (lineEntries "xi !slopes yi=3").filterMap LineEntry.library? =
      (lineEntries "!slopes yi=3").filterMap LineEntry.library? :=
    congrArg Session.libraries hsession
  rw [hentries, halone] at hlibraries
  cases hlibraries

end Session

end Stepwise
