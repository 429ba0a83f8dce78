import Stepwise.Json.Library
import Stepwise.Proofs.Json.Numeral
import Stepwise.Proofs.Json.Quoted

/-!
# Values written and read back

A reader that expects a shape follows the text of a value token by token, so the value
must be one that the shape expects (`Fits`):

> `readWhole_text`: the text of a value that fits a shape is read against it as the
> same value.

So the standard library obeys the law that is asked of every library
(`Library.ReadsBack`).

The induction is on the value. Behind an item or a member the reader stands before the
text of those that follow (`listed`), and every call leaves some of the text to the
calls below it, so the length of the text is fuel enough.
-/

namespace Stepwise.Json

/-! ## Values that a shape expects -/

mutual

/-- Whether a value is one that a shape expects, and every number of it is finite. -/
def Fits (shape : Shape) : Json → Prop
  | .null => shape.acceptNull = .ok .null
  | .bool b => shape.acceptBool b = .ok (.bool b)
  | .integer n =>
    Number.isFinite (Number.ofInt n) = true ∧ shape.acceptNumber (.integer n) = .ok (.integer n)
  | .number x =>
    Number.isFinite x = true ∧ shape.acceptNumber (.number x) = .ok (.number x)
  | .string s => shape.acceptText s = .ok (.string s)
  | .array items => shape.opensList = true ∧ FitItems shape 0 items
  | .object members => shape.opensObject = true ∧ FitMembers shape [] members

/-- Whether the items of a list behind the first `count` are such as a shape expects. -/
def FitItems (shape : Shape) (count : Nat) : List Json → Prop
  | [] => shape.closesList count = true
  | item :: rest =>
    (∃ expected, shape.item? count = some expected ∧ Fits expected item) ∧
      FitItems shape (count + 1) rest

/-- Whether the members of an object behind those of the names `seen` are such as a
shape expects. -/
def FitMembers (shape : Shape) (seen : List String) : List (String × Json) → Prop
  | [] => shape.closesObject seen = true
  | (key, value) :: rest =>
    (∃ expected, shape.member seen key = .ok expected ∧ Fits expected value) ∧
      FitMembers shape (key :: seen) rest

end

/-! ## Texts in a list -/

/-- Texts one behind the other, each but the first behind a comma, and what closes them. -/
def listed (close : Char) : (first : Bool) → List String → List Char
  | _, [] => [close]
  | first, text :: texts => (if first then [] else [',']) ++ (text.toList ++ listed close false texts)

theorem toList_intercalate (close : Char) (texts : List String) :
    (",".intercalate texts).toList ++ [close] = listed close true texts := by
  induction texts with
  | nil => rfl
  | cons text texts ih =>
    cases texts with
    | nil => rw [String.intercalate_singleton, listed, if_pos rfl, listed]; rfl
    | cons next texts =>
      have hcomma : ",".toList = [','] := rfl
      rw [listed, if_pos rfl, List.nil_append, String.intercalate_cons_cons, String.toList_append,
        String.toList_append, List.append_assoc, List.append_assoc, ih, hcomma]
      rfl

theorem toList_text_array (items : List Json) :
    (Json.array items).text.toList = '[' :: listed ']' true (itemTexts items) := by
  have hopen : "[".toList = ['['] := rfl
  have hclose : "]".toList = [']'] := rfl
  rw [text, String.toList_append, String.toList_append, hopen, hclose, List.append_assoc,
    toList_intercalate]
  rfl

theorem toList_text_object (members : List (String × Json)) :
    (Json.object members).text.toList = '\x7b' :: listed '\x7d' true (memberTexts members) := by
  have hopen : "\x7b".toList = ['\x7b'] := rfl
  have hclose : "\x7d".toList = ['\x7d'] := rfl
  rw [text, String.toList_append, String.toList_append, hopen, hclose, List.append_assoc,
    toList_intercalate]
  rfl

/-- What closes a list or an object, or a comma, stands behind a value. -/
theorem isTail_listed {close : Char} (hclose : close = ']' ∨ close = '\x7d') (texts : List String)
    (rest : List Char) : IsTail (listed close false texts ++ rest) := by
  cases texts with
  | nil => exact isTail_cons _ (.inr hclose)
  | cons text texts => exact isTail_cons _ (.inl rfl)

theorem length_listed_pos (close : Char) (texts : List String) :
    0 < (listed close false texts).length := by
  cases texts with
  | nil => exact Nat.one_pos
  | cons text texts => exact Nat.succ_pos _

/-! ## First characters -/

/-- Whether a value may start with a character: it is no blank, and closes nothing. -/
def Starts (c : Char) : Prop := isBlank c = false ∧ c ≠ ']' ∧ c ≠ '\x7d'

instance (c : Char) : Decidable (Starts c) :=
  inferInstanceAs (Decidable (isBlank c = false ∧ c ≠ ']' ∧ c ≠ '\x7d'))

theorem starts_of_isNumeric {c : Char} (h : IsNumeric c) : Starts c := by
  refine ⟨?_, h.ne (by decide), h.ne (by decide)⟩
  unfold isBlank
  simp only [Bool.or_eq_false_iff, beq_eq_false_iff_ne]
  refine ⟨⟨⟨?_, ?_⟩, ?_⟩, ?_⟩
  all_goals exact h.ne (by decide)

theorem exists_cons_repr (n : Int) : ∃ c cs, n.repr.toList = c :: cs ∧ IsNumeric c := by
  rw [toList_repr_int]
  unfold minus
  split
  · exact ⟨_, _, rfl, .inr (.inr rfl)⟩
  · obtain ⟨c, cs, hcs⟩ := List.exists_cons_of_ne_nil (Nat.toDigits_ne_nil (b := 10) (n := n.natAbs))
    refine ⟨c, cs, hcs, .inl ((Decimal.isWhole_toDigits n.natAbs).digits c ?_)⟩
    rw [hcs]
    exact List.mem_cons_self

theorem exists_cons_number {x : Float} (hx : Number.isFinite x = true) :
    ∃ c cs, (numberText x).toList = c :: cs ∧ IsNumeric c := by
  have hwhole := (isJson_numeral (Number.isFinite_iff.1 hx)).1.whole
  obtain ⟨c, cs, hcs⟩ := List.exists_cons_of_ne_nil hwhole.nonempty
  rw [toList_numberText]
  unfold minus Numeral.chars
  split
  · exact ⟨_, _, rfl, .inr (.inr rfl)⟩
  · rw [hcs]
    exact ⟨c, _, rfl, .inl (hwhole.digits c (hcs ▸ List.mem_cons_self))⟩

/-- The text of a value starts with no blank and closes nothing. -/
theorem exists_cons_text (json : Json) : ∃ c cs, json.text.toList = c :: cs ∧ Starts c := by
  cases json with
  | null => exact ⟨'n', ['u', 'l', 'l'], rfl, by decide⟩
  | bool b =>
    cases b with
    | true => exact ⟨'t', ['r', 'u', 'e'], rfl, by decide⟩
    | false => exact ⟨'f', ['a', 'l', 's', 'e'], rfl, by decide⟩
  | integer n =>
    obtain ⟨c, cs, hcs, hc⟩ := exists_cons_repr n
    exact ⟨c, cs, hcs, starts_of_isNumeric hc⟩
  | number x =>
    by_cases hx : Number.isFinite x = true
    · obtain ⟨c, cs, hcs, hc⟩ := exists_cons_number hx
      exact ⟨c, cs, by rw [text, if_pos hx, hcs], starts_of_isNumeric hc⟩
    · exact ⟨'n', ['u', 'l', 'l'], by rw [text, if_neg hx]; rfl, by decide⟩
  | string s => exact ⟨'"', _, toList_quote s, by decide⟩
  | array items => exact ⟨'[', _, toList_text_array items, by decide⟩
  | object members => exact ⟨'\x7b', _, toList_text_object members, by decide⟩

theorem length_text_pos (json : Json) : 0 < json.text.toList.length := by
  obtain ⟨c, cs, htext, -⟩ := exists_cons_text json
  rw [htext]
  exact Nat.succ_pos _

/-! ## One step of the reader -/

theorem skipBlank_cons {c : Char} (cs : List Char) (h : isBlank c = false) :
    skipBlank (c :: cs) = c :: cs := by
  unfold skipBlank
  rw [List.dropWhile_cons_of_neg]
  simp [h]

variable {shape : Shape} {fuel : Nat}

theorem readValue_quote (s : String) (rest : List Char) :
    readValue shape (fuel + 1) ((quote s).toList ++ rest) =
      (shape.acceptText s).map fun json => (json, rest) := by
  rw [toList_quote]
  show ((quoted shape.isIgnored (s.toList.flatMap escape ++ ['"'] ++ rest)).bind fun p =>
    (shape.acceptText p.1).bind fun json => .ok (json, p.2)) = _
  rw [List.append_assoc, List.singleton_append, quoted_escape]
  rfl

theorem readValue_array (cs : List Char) (h : shape.opensList = true) :
    readValue shape (fuel + 1) ('[' :: cs) =
      (readItems shape fuel 0 cs).map fun p => (.array p.1, p.2) := by
  show (if shape.opensList then _ else _ : Except Fault (Json × List Char)) = _
  rw [if_pos h]
  rfl

theorem readValue_object (cs : List Char) (h : shape.opensObject = true) :
    readValue shape (fuel + 1) ('\x7b' :: cs) =
      (readMembers shape fuel [] cs).map fun p => (.object p.1, p.2) := by
  show (if shape.opensObject then _ else _ : Except Fault (Json × List Char)) = _
  rw [if_pos h]
  rfl

theorem readValue_numeral {c : Char} (hc : IsNumeric c) (cs : List Char) :
    readValue shape (fuel + 1) (c :: cs) =
      (finiteNumeral shape.isIgnored (c :: cs)).bind fun p =>
        (shape.acceptNumber p.1).map fun n => (n, p.2) := by
  rw [readValue, skipBlank_cons cs (starts_of_isNumeric hc).1]
  split
  case h_7 => rfl
  all_goals
    next heq => exact absurd (List.cons.inj heq).1 (hc.ne (by decide))

theorem readItems_close {count : Nat} (rest : List Char) (h : shape.closesList count = true) :
    readItems shape (fuel + 1) count (']' :: rest) = .ok ([], rest) := by
  show (if shape.closesList count then _ else _ : Except Fault (List Json × List Char)) = _
  rw [if_pos h]

theorem readMembers_close {seen : List String} (rest : List Char)
    (h : shape.closesObject seen = true) :
    readMembers shape (fuel + 1) seen ('\x7d' :: rest) = .ok ([], rest) := by
  show (if shape.closesObject seen then _ else _ : Except Fault (List (String × Json) × _)) = _
  rw [if_pos h]

/-- What stands before an item or a member is a comma, unless it is the first. -/
theorem exists_cons_separated (first : Bool) {c : Char} (cs : List Char) (hc : Starts c) :
    ∃ d ds, (if first then [] else [',']) ++ c :: cs = d :: ds ∧ Starts d ∧
      (if first then some (d :: ds) else afterComma? (d :: ds)) = some (c :: cs) := by
  cases first with
  | true => exact ⟨c, cs, rfl, hc, rfl⟩
  | false => exact ⟨',', c :: cs, rfl, by decide, rfl⟩

/-- An item is read, and then those behind it. -/
theorem readItems_cons {count : Nat} {expected : Shape} {item value : Json} {values : List Json}
    {cs rest : List Char} (hitem : shape.item? count = some expected)
    (hvalue : readValue expected fuel (item.text.toList ++ cs) = .ok (value, cs))
    (hvalues : readItems shape fuel (count + 1) cs = .ok (values, rest)) :
    readItems shape (fuel + 1) count
      ((if count == 0 then [] else [',']) ++ (item.text.toList ++ cs)) =
        .ok (value :: values, rest) := by
  obtain ⟨c, tail, htext, hc⟩ := exists_cons_text item
  rw [htext, List.cons_append] at hvalue ⊢
  obtain ⟨d, ds, hfront, hd, hcomma⟩ := exists_cons_separated (count == 0) (tail ++ cs) hc
  simp only [beq_iff_eq] at hcomma
  rw [hfront, readItems, skipBlank_cons _ hd.1]
  split
  · next heq => exact absurd (List.cons.inj heq).1 hd.2.1
  · rw [hcomma, hitem]
    show (readValue expected fuel (c :: (tail ++ cs))).bind _ = _
    rw [hvalue]
    show (readItems shape fuel (count + 1) cs).bind _ = _
    rw [hvalues]
    rfl

/-- A member is read, and then those behind it. -/
theorem readMembers_cons {seen : List String} {key : String} {expected : Shape}
    {item value : Json} {values : List (String × Json)} {cs rest : List Char}
    (hmember : shape.member seen key = .ok expected)
    (hvalue : readValue expected fuel (item.text.toList ++ cs) = .ok (value, cs))
    (hvalues : readMembers shape fuel (key :: seen) cs = .ok (values, rest)) :
    readMembers shape (fuel + 1) seen
      ((if seen.isEmpty then [] else [',']) ++ ((quote key ++ ":" ++ item.text).toList ++ cs)) =
        .ok ((key, value) :: values, rest) := by
  have htext : (quote key ++ ":" ++ item.text).toList ++ cs =
      '"' :: (key.toList.flatMap escape ++ '"' :: ':' :: (item.text.toList ++ cs)) := by
    have hcolon : ":".toList = [':'] := rfl
    rw [String.toList_append, String.toList_append, toList_quote, hcolon]
    simp only [List.append_assoc, List.cons_append, List.nil_append]
  obtain ⟨d, ds, hfront, hd, hcomma⟩ := exists_cons_separated seen.isEmpty
    (key.toList.flatMap escape ++ '"' :: ':' :: (item.text.toList ++ cs)) (c := '"') (by decide)
  rw [htext, hfront, readMembers, skipBlank_cons _ hd.1]
  split
  · next heq => exact absurd (List.cons.inj heq).1 hd.2.2
  · rw [hcomma, Option.map_some, skipBlank_cons _ rfl]
    show (quoted _ _).bind _ = _
    rw [quoted_escape]
    show (shape.member seen key).bind _ = _
    rw [hmember]
    show (readValue expected fuel (item.text.toList ++ cs)).bind _ = _
    rw [hvalue]
    show (readMembers shape fuel (key :: seen) cs).bind _ = _
    rw [hvalues]
    rfl

/-! ## Values read back -/

mutual

/-- **A value that fits a shape is read back from its text**, up to what stands behind. -/
theorem readValue_text {shape : Shape} (json : Json) (h : Fits shape json) {fuel : Nat}
    (hfuel : json.text.toList.length ≤ fuel) {rest : List Char} (hrest : IsTail rest) :
    readValue shape fuel (json.text.toList ++ rest) = .ok (json, rest) := by
  obtain ⟨k, rfl⟩ : ∃ k, fuel = k + 1 := by
    have hlength := length_text_pos json
    exact ⟨fuel - 1, by omega⟩
  cases json with
  | null =>
    show shape.acceptNull.bind (fun json => .ok (json, rest)) = _
    rw [show shape.acceptNull = _ from h]
    rfl
  | bool b =>
    have hbool : (shape.acceptBool b).bind (fun json => .ok (json, rest)) =
        .ok (.bool b, rest) := by
      rw [show shape.acceptBool b = _ from h]
      rfl
    cases b with
    | true => exact hbool
    | false => exact hbool
  | integer n =>
    obtain ⟨hfinite, haccept⟩ := h
    obtain ⟨c, cs, hcs, hc⟩ := exists_cons_repr n
    rw [text, hcs, List.cons_append, readValue_numeral hc, ← List.cons_append, ← hcs,
      finiteNumeral_repr _ hfinite hrest]
    show (shape.acceptNumber (.integer n)).map _ = _
    rw [haccept]
    rfl
  | number x =>
    obtain ⟨hfinite, haccept⟩ := h
    obtain ⟨c, cs, hcs, hc⟩ := exists_cons_number hfinite
    rw [text, if_pos hfinite, hcs, List.cons_append, readValue_numeral hc, ← List.cons_append,
      ← hcs, finiteNumeral_numberText _ hfinite hrest]
    show (shape.acceptNumber (.number x)).map _ = _
    rw [haccept]
    rfl
  | string s =>
    rw [text, readValue_quote, show shape.acceptText s = _ from h]
    rfl
  | array items =>
    obtain ⟨hopens, hitems⟩ := h
    rw [toList_text_array, List.length_cons] at hfuel
    have hread : readItems shape k 0 (listed ']' true (itemTexts items) ++ rest) = _ :=
      readItems_text items 0 hitems (Nat.le_of_succ_le_succ hfuel)
    rw [toList_text_array, List.cons_append, readValue_array _ hopens, hread]
    rfl
  | object members =>
    obtain ⟨hopens, hmembers⟩ := h
    rw [toList_text_object, List.length_cons] at hfuel
    have hread : readMembers shape k [] (listed '\x7d' true (memberTexts members) ++ rest) = _ :=
      readMembers_text members [] hmembers (Nat.le_of_succ_le_succ hfuel)
    rw [toList_text_object, List.cons_append, readValue_object _ hopens, hread]
    rfl

theorem readItems_text {shape : Shape} (items : List Json) (count : Nat)
    (h : FitItems shape count items) {fuel : Nat}
    (hfuel : (listed ']' (count == 0) (itemTexts items)).length ≤ fuel) {rest : List Char} :
    readItems shape fuel count (listed ']' (count == 0) (itemTexts items) ++ rest) =
      .ok (items, rest) := by
  cases items with
  | nil =>
    obtain ⟨k, rfl⟩ : ∃ k, fuel = k + 1 := ⟨fuel - 1, (Nat.sub_add_cancel hfuel).symm⟩
    exact readItems_close rest h
  | cons item items =>
    obtain ⟨⟨expected, hitem, hfits⟩, hitems⟩ := h
    have hbehind := length_listed_pos ']' (itemTexts items)
    have hlength := length_text_pos item
    rw [itemTexts, listed, List.length_append, List.length_append] at hfuel
    obtain ⟨k, rfl⟩ : ∃ k, fuel = k + 1 := ⟨fuel - 1, by omega⟩
    have hvalue : readValue expected k
        (item.text.toList ++ (listed ']' false (itemTexts items) ++ rest)) = _ :=
      readValue_text item hfits (by omega) (isTail_listed (.inl rfl) (itemTexts items) rest)
    have hvalues : readItems shape k (count + 1) (listed ']' false (itemTexts items) ++ rest) = _ :=
      readItems_text items (count + 1) hitems (by show List.length (listed _ false _) ≤ _; omega)
    rw [itemTexts, listed, List.append_assoc, List.append_assoc,
      readItems_cons hitem hvalue hvalues]

theorem readMembers_text {shape : Shape} (members : List (String × Json)) (seen : List String)
    (h : FitMembers shape seen members) {fuel : Nat}
    (hfuel : (listed '\x7d' seen.isEmpty (memberTexts members)).length ≤ fuel)
    {rest : List Char} :
    readMembers shape fuel seen (listed '\x7d' seen.isEmpty (memberTexts members) ++ rest) =
      .ok (members, rest) := by
  cases members with
  | nil =>
    obtain ⟨k, rfl⟩ : ∃ k, fuel = k + 1 := ⟨fuel - 1, (Nat.sub_add_cancel hfuel).symm⟩
    exact readMembers_close rest h
  | cons m members =>
    obtain ⟨key, value⟩ := m
    obtain ⟨⟨expected, hmember, hfits⟩, hmembers⟩ := h
    have hbehind := length_listed_pos '\x7d' (memberTexts members)
    have hkey : value.text.toList.length < (quote key ++ ":" ++ value.text).toList.length := by
      rw [String.toList_append, String.toList_append, toList_quote, List.length_append,
        List.length_append, List.length_cons]
      omega
    rw [memberTexts, listed, List.length_append, List.length_append] at hfuel
    obtain ⟨k, rfl⟩ : ∃ k, fuel = k + 1 := ⟨fuel - 1, by omega⟩
    have hvalue : readValue expected k
        (value.text.toList ++ (listed '\x7d' false (memberTexts members) ++ rest)) = _ :=
      readValue_text value hfits (by omega) (isTail_listed (.inr rfl) (memberTexts members) rest)
    have hvalues : readMembers shape k (key :: seen)
        (listed '\x7d' false (memberTexts members) ++ rest) = _ :=
      readMembers_text members (key :: seen) hmembers
        (by show List.length (listed _ false _) ≤ _; omega)
    rw [memberTexts, listed, List.append_assoc, List.append_assoc,
      readMembers_cons hmember hvalue hvalues]

end

/-- **A value that fits a shape is read back from its text.** -/
theorem readAs_text {shape : Shape} {json : Json} (h : Fits shape json) :
    readAs shape json.text = .ok (json, []) := by
  have hfuel : json.text.toList.length ≤ 2 * json.text.length + 2 := by
    rw [String.length_toList]
    omega
  have htail : IsTail [] := nofun
  have hread := readValue_text json h hfuel htail
  rwa [List.append_nil] at hread

theorem readWhole_text {shape : Shape} {json : Json} (h : Fits shape json)
    (hdepth : json.depth ≤ maxDepth) : readWhole shape json.text = .ok json := by
  unfold readWhole
  rw [readAs_text h]
  exact if_pos ⟨rfl, fun _ => hdepth⟩

/-- What is a value and nothing else begins with one. -/
theorem readAs_of_readWhole {shape : Shape} {text : String} {json : Json}
    (h : readWhole shape text = .ok json) : ∃ rest, readAs shape text = .ok (json, rest) := by
  unfold readWhole at h
  cases hread : readAs shape text with
  | error fault =>
    rw [hread] at h
    cases h
  | ok result =>
    obtain ⟨value, rest⟩ := result
    rw [hread] at h
    change (if _ then .ok value else .error Fault.malformed : Except Fault Json) = _ at h
    split at h
    · cases h
      exact ⟨rest, rfl⟩
    · cases h

/-! ## Lists, tables and records -/

/-- A list fits if every item does, where all items are expected alike. -/
theorem fitItems_of_forall {shape expected : Shape} (hitem : ∀ count, shape.item? count = some expected)
    (hclose : ∀ count, shape.closesList count = true) {count : Nat} {items : List Json}
    (h : ∀ item ∈ items, Fits expected item) : FitItems shape count items := by
  induction items generalizing count with
  | nil => exact hclose count
  | cons item items ih =>
    obtain ⟨hhead, htail⟩ := List.forall_mem_cons.1 h
    exact ⟨⟨expected, hitem count, hhead⟩, ih htail⟩

/-- An object fits if every member does, where all members are expected alike. -/
theorem fitMembers_of_forall {shape expected : Shape}
    (hmember : ∀ seen name, shape.member seen name = .ok expected)
    (hclose : ∀ seen, shape.closesObject seen = true) {seen : List String}
    {members : List (String × Json)} (h : ∀ m ∈ members, Fits expected m.2) :
    FitMembers shape seen members := by
  induction members generalizing seen with
  | nil => exact hclose seen
  | cons m members ih =>
    obtain ⟨hhead, htail⟩ := List.forall_mem_cons.1 h
    exact ⟨⟨expected, hmember seen m.1, hhead⟩, ih htail⟩

theorem fits_list {expected : Shape} {items : List Json} (h : ∀ item ∈ items, Fits expected item) :
    Fits (.list expected) (.array items) :=
  ⟨rfl, fitItems_of_forall (fun _ => rfl) (fun _ => rfl) h⟩

theorem fits_table {expected : Shape} {members : List (String × Json)}
    (h : ∀ m ∈ members, Fits expected m.2) : Fits (.table expected) (.object members) :=
  ⟨rfl, fitMembers_of_forall (fun _ _ => rfl) (fun _ => rfl) h⟩

/-- A record fits if no field is given twice, every field given is one of the record and
fits, and no field is missing that must be given. -/
theorem fitMembers_record {fields : List (String × Bool × Shape)} {seen : List String}
    {members : List (String × Json)} (hseen : ∀ m ∈ members, m.1 ∉ seen)
    (hnodup : (members.map (·.1)).Nodup)
    (hfits : ∀ m ∈ members, ∃ required expected,
      fields.lookup m.1 = some (required, expected) ∧ Fits expected m.2)
    (hgiven : ∀ field ∈ fields, field.2.1 = true → field.1 ∈ members.map (·.1) ∨ field.1 ∈ seen) :
    FitMembers (.record fields) seen members := by
  induction members generalizing seen with
  | nil =>
    refine List.all_eq_true.2 fun field hfield => ?_
    by_cases hrequired : field.2.1 = true
    · have hmem := (hgiven field hfield hrequired).resolve_left List.not_mem_nil
      simp [hmem]
    · simp [hrequired]
  | cons m members ih =>
    obtain ⟨key, value⟩ := m
    obtain ⟨⟨required, expected, hlookup, hvalue⟩, htail⟩ := List.forall_mem_cons.1 hfits
    obtain ⟨hkey, hrest⟩ := List.nodup_cons.1 hnodup
    have hmember : (Shape.record fields).member seen key = .ok expected := by
      have hnew : key ∉ seen := hseen _ List.mem_cons_self
      unfold Shape.member
      simp only [hlookup]
      rw [if_neg (by simpa using hnew)]
    refine ⟨⟨expected, hmember, hvalue⟩, ih ?_ hrest htail ?_⟩
    · intro m hm hmem
      rcases List.mem_cons.1 hmem with heq | hmem
      · exact hkey (List.mem_map.2 ⟨m, hm, heq⟩)
      · exact hseen m (List.mem_cons_of_mem _ hm) hmem
    · intro field hfield hrequired
      rcases hgiven field hfield hrequired with hmem | hmem
      · rcases List.mem_cons.1 hmem with heq | hmem
        · exact .inr (heq ▸ List.mem_cons_self)
        · exact .inl hmem
      · exact .inr (List.mem_cons_of_mem _ hmem)

theorem fits_number_ofFloat {x : Float} (hx : Number.isFinite x = true) :
    Fits .number (ofFloat x) := by
  unfold ofFloat
  rw [if_pos hx]
  exact ⟨hx, rfl⟩

/-! ## Values of any shape -/

theorem fitMembers_any {seen : List String} {members : List (String × Json)}
    (h : ∀ m ∈ members, Fits .any m.2) : FitMembers .any seen members :=
  fitMembers_of_forall (fun _ _ => rfl) (fun _ => rfl) h

theorem fits_any_array {items : List Json} (h : ∀ item ∈ items, Fits .any item) :
    Fits .any (.array items) := ⟨rfl, fitItems_of_forall (fun _ => rfl) (fun _ => rfl) h⟩

theorem fits_any_object {members : List (String × Json)} (h : ∀ m ∈ members, Fits .any m.2) :
    Fits .any (.object members) := ⟨rfl, fitMembers_any h⟩

theorem fits_any_ofFloat (x : Float) : Fits .any (ofFloat x) := by
  unfold ofFloat
  split
  · next hx => exact ⟨hx, rfl⟩
  · rfl

theorem fits_any_ofTexts (texts : List String) : Fits .any (ofTexts texts) := by
  refine fits_any_array fun item hitem => ?_
  obtain ⟨s, -, rfl⟩ := List.mem_map.1 hitem
  rfl

theorem fits_any_ofBindings (b : Bindings) : Fits .any (ofBindings b) := by
  refine fits_any_object fun m hm => ?_
  obtain ⟨entry, -, rfl⟩ := List.mem_map.1 hm
  exact fits_any_ofFloat entry.2

/-! ## Depth -/

theorem depthOfItems_le {depth : Nat} {items : List Json} (h : ∀ item ∈ items, item.depth ≤ depth) :
    depthOfItems items ≤ depth := by
  induction items with
  | nil => exact Nat.zero_le _
  | cons item items ih =>
    obtain ⟨hhead, htail⟩ := List.forall_mem_cons.1 h
    exact Nat.max_le.2 ⟨hhead, ih htail⟩

theorem depthOfMembers_le {depth : Nat} {members : List (String × Json)}
    (h : ∀ m ∈ members, m.2.depth ≤ depth) : depthOfMembers members ≤ depth := by
  induction members with
  | nil => exact Nat.zero_le _
  | cons m members ih =>
    obtain ⟨hhead, htail⟩ := List.forall_mem_cons.1 h
    exact Nat.max_le.2 ⟨hhead, ih htail⟩

theorem depth_ofFloat (x : Float) : (ofFloat x).depth = 0 := by
  unfold ofFloat
  split
  · rfl
  · rfl

theorem depth_ofTexts (texts : List String) : (ofTexts texts).depth ≤ 1 := by
  refine Nat.succ_le_succ (depthOfItems_le fun item hitem => ?_)
  obtain ⟨s, -, rfl⟩ := List.mem_map.1 hitem
  exact Nat.le_refl 0

theorem depth_ofBindings (b : Bindings) : (ofBindings b).depth ≤ 1 := by
  refine Nat.succ_le_succ (depthOfMembers_le fun m hm => ?_)
  obtain ⟨entry, -, rfl⟩ := List.mem_map.1 hm
  exact Nat.le_of_eq (depth_ofFloat entry.2)

/-! ## Libraries -/

/-- **The law of a library**: what it prints it reads back. The value must be one that
is expected, with finite numbers only, and must not be nested too deep. -/
structure Library.ReadsBack (l : Library) : Prop where
  read_print : ∀ {α : Type} (decoder : Decoder α) (json : Json) (value : α),
    Fits decoder.shape json → json.depth ≤ maxDepth → decoder.ofJson? json = some value →
      l.read decoder (l.print json) = .ok value

theorem Library.print_standard (json : Json) : Library.standard.print json = json.text := rfl

theorem read_standard_eq_ok {α : Type} {decoder : Decoder α} {source : String} {value : α}
    (h : Library.standard.read decoder source = .ok value) :
    ∃ json, readWhole decoder.shape source = .ok json ∧ decoder.ofJson? json = some value := by
  unfold Library.standard at h
  dsimp only at h
  split at h
  · cases h
  · next json hjson =>
    split at h
    · next found hfound =>
      cases h
      exact ⟨json, hjson, hfound⟩
    · cases h

/-- The standard library obeys the law. -/
theorem readsBack_standard : Library.standard.ReadsBack where
  read_print decoder json value hfits hdepth hvalue := by
    unfold Library.standard
    dsimp only
    rw [readWhole_text hfits hdepth]
    dsimp only
    rw [hvalue]

end Stepwise.Json
