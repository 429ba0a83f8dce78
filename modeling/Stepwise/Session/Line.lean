import Stepwise.Number.Decimal
import Stepwise.Session.Basic
import Stepwise.Text.Blank

/-!
# Session lines

A session is written as one line of entries, in any order and between blanks:

* `!name` imports a catalog,
* `@name` activates a hint,
* `name=number` binds a value.

`Cursor.entry?` reads one entry. A malformed binding is an entry too, a fault, and
reading goes on behind it, so every text has a reading. Each entry takes at least
one character (`length_entry?_lt`), which is why reading ends.
-/

namespace Stepwise

/-- Why a binding could not be read. -/
inductive LineFault
  /-- No equals sign follows the name; the context shows where it is missing. -/
  | missingEquals (name context : String)
  /-- What follows the equals sign is no number. -/
  | invalidNumber (name text : String)
deriving DecidableEq

/-- What is said of a binding that could not be read. -/
def LineFault.message : LineFault → String
  | .missingEquals name context =>
    "Expected \"=\" after variable \"" ++ name ++ "\" at " ++ context
  | .invalidNumber .. => "Expected number after \"=\""

/-- One entry of a session line. -/
inductive LineEntry
  | library (name : String)
  | hint (name : String)
  | binding (name : String) (value : Float)
  | fault (fault : LineFault)
deriving DecidableEq

/-- The characters of names: ASCII letters and digits, `_` and `-`. -/
def isNameChar (c : Char) : Bool := c.isAlphanum || c == '_' || c == '-'

/-- The characters of numbers: ASCII digits, `.` and `-`. -/
def isNumberChar (c : Char) : Bool := c.isDigit || c == '.' || c == '-'

/-- A place in a text: the characters behind it, the last one first, and those ahead. -/
structure Cursor where
  behind : List Char
  ahead : List Char
deriving DecidableEq

namespace Cursor

/-- The place before the first character. -/
def start (text : List Char) : Cursor := ⟨[], text⟩

/-- The whole text. -/
def text (c : Cursor) : List Char := c.behind.reverse ++ c.ahead

/-- The run of characters of one class ahead. -/
def run (accept : Char → Bool) (c : Cursor) : List Char := c.ahead.takeWhile accept

/-- The place behind the run of characters of one class. -/
def skip (accept : Char → Bool) (c : Cursor) : Cursor :=
  ⟨(c.run accept).reverse ++ c.behind, c.ahead.dropWhile accept⟩

/-- The place behind the next character, if there is one. -/
def advance (c : Cursor) : Cursor :=
  match c.ahead with
  | [] => c
  | x :: rest => ⟨x :: c.behind, rest⟩

/-- How many characters a context shows on either side. -/
def contextWidth : Nat := 5

/-- A few characters on either side of the place, for messages. -/
def context (c : Cursor) : String :=
  "..." ++ String.ofList (c.behind.take contextWidth).reverse ++ "[here]" ++
    String.ofList (c.ahead.take contextWidth) ++ "..."

/-- The entry of a name and what follows it. One character behind the name is
taken whatever it is, so that no character can hold up the reading. -/
def binding (c : Cursor) : LineEntry × Cursor :=
  let name := String.ofList (c.run isNameChar)
  let sign := (c.skip isNameChar).skip Text.isBlank
  -- Whatever stands in the place of the sign is taken, so reading moves on.
  let after := sign.advance
  if sign.ahead.head? = some '=' then
    let number := after.skip Text.isBlank
    let digits := number.run isNumberChar
    match Number.ofText? digits with
    | some value => (.binding name value, number.skip isNumberChar)
    | none => (.fault (.invalidNumber name (String.ofList digits)), number.skip isNumberChar)
  else (.fault (.missingEquals name after.context), after)

/-- The next entry and the place behind it, unless only blanks are left. -/
def entry? (c : Cursor) : Option (LineEntry × Cursor) :=
  let c := c.skip Text.isBlank
  match c.ahead with
  | [] => none
  | '!' :: _ =>
    some (.library (String.ofList (c.advance.run isNameChar)), c.advance.skip isNameChar)
  | '@' :: _ =>
    some (.hint (String.ofList (c.advance.run isNameChar)), c.advance.skip isNameChar)
  | _ :: _ => some c.binding

/-! ## Every entry takes a character -/

theorem length_skip_le (accept : Char → Bool) (c : Cursor) :
    (c.skip accept).ahead.length ≤ c.ahead.length :=
  (List.dropWhile_sublist _).length_le

theorem length_advance (c : Cursor) : c.advance.ahead.length = c.ahead.length - 1 := by
  unfold advance
  split <;> simp_all

theorem length_binding_lt {c : Cursor} (h : c.ahead ≠ []) :
    c.binding.2.ahead.length < c.ahead.length := by
  have hpos : 0 < c.ahead.length := List.length_pos_iff.2 h
  have hsign : (((c.skip isNameChar).skip Text.isBlank).advance).ahead.length < c.ahead.length := by
    have h₁ := length_skip_le isNameChar c
    have h₂ := length_skip_le Text.isBlank (c.skip isNameChar)
    have h₃ := length_advance ((c.skip isNameChar).skip Text.isBlank)
    omega
  have hnumber := length_skip_le Text.isBlank ((c.skip isNameChar).skip Text.isBlank).advance
  have hrest := length_skip_le isNumberChar
    (((c.skip isNameChar).skip Text.isBlank).advance.skip Text.isBlank)
  unfold binding
  dsimp only
  split
  · split <;> dsimp only <;> omega
  · exact hsign

/-- Every entry takes at least one character. -/
theorem length_entry?_lt {c c' : Cursor} {e : LineEntry} (h : c.entry? = some (e, c')) :
    c'.ahead.length < c.ahead.length := by
  have hblank := length_skip_le Text.isBlank c
  have hadvance := length_advance (c.skip Text.isBlank)
  have hname := length_skip_le isNameChar (c.skip Text.isBlank).advance
  unfold entry? at h
  dsimp only at h
  split at h
  · cases h
  · next heq =>
    cases h
    have := congrArg List.length heq
    simp only [List.length_cons] at this
    omega
  · next heq =>
    cases h
    have := congrArg List.length heq
    simp only [List.length_cons] at this
    omega
  · next heq =>
    have hlt := length_binding_lt (c := c.skip Text.isBlank) (by simp [heq])
    rw [Option.some.inj h] at hlt
    exact Nat.lt_of_lt_of_le hlt hblank

/-- All entries ahead. -/
def entries (c : Cursor) : List LineEntry :=
  match _h : c.entry? with
  | none => []
  | some (e, rest) => e :: rest.entries
termination_by c.ahead.length
decreasing_by exact length_entry?_lt ‹_›

end Cursor

namespace LineEntry

/-- The catalog that an entry imports. -/
def library? : LineEntry → Option String
  | .library name => some name
  | _ => none

/-- The hint that an entry activates. -/
def hint? : LineEntry → Option String
  | .hint name => some name
  | _ => none

/-- The value that an entry binds. -/
def binding? : LineEntry → Option (String × Float)
  | .binding name value => some (name, value)
  | _ => none

/-- The fault that an entry is. -/
def fault? : LineEntry → Option LineFault
  | .fault f => some f
  | _ => none

end LineEntry

namespace Session

/-- The session that entries describe; of several bindings of a name the last counts. -/
def ofEntries (entries : List LineEntry) : Session where
  libraries := entries.filterMap LineEntry.library?
  hints := entries.filterMap LineEntry.hint?
  values := .ofList (entries.filterMap LineEntry.binding?)

/-- What a line says and what could not be read in it, in the order of the text. -/
structure Reading where
  session : Session
  faults : List LineFault

/-- The entries of a line. -/
def lineEntries (line : String) : List LineEntry :=
  (Cursor.start (Text.trim line.toList)).entries

/-- Read a line. -/
def read (line : String) : Reading where
  session := ofEntries (lineEntries line)
  faults := (lineEntries line).filterMap LineEntry.fault?

/-- Read a line that must have no fault. -/
def readStrict (line : String) : Except (List LineFault) Session :=
  let reading := read line
  if reading.faults.isEmpty then .ok reading.session else .error reading.faults

/-- The entries of a session as they are written: catalogs, hints, then values by name. -/
def tokens (s : Session) : List String :=
  s.libraries.map ("!" ++ ·) ++ s.hints.map ("@" ++ ·) ++
    s.values.entries.map fun (name, value) => name ++ "=" ++ Number.text value

/-- A session as a line. -/
def line (s : Session) : String := " ".intercalate s.tokens

/-- A line with a button's edit made. Malformed entries are dropped. -/
def editLine (line : String) (b : Button) : String := ((read line).session.apply b).line

end Session

end Stepwise
