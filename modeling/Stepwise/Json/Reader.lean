import Stepwise.Json.Basic

/-!
# Reading JSON against a shape

A text is read from left to right against the shape that its reader expects. The
first fault met decides the answer: the text is **malformed**, or it is well formed
so far but a **mismatch** of the shape. A number, text or word of the wrong kind is
a mismatch when it has been read; a list or object of the wrong kind when it opens;
a field given twice at its second name; a missing field when its record closes.

Members that a record does not know are read and passed over; in them a number may
have any size and a text may hold half of a surrogate pair.
-/

namespace Stepwise

/-- What a reader expects of a value. -/
inductive Shape
  /-- Anything. -/
  | any
  /-- Anything, and what is read counts for nothing. -/
  | ignored
  | text
  | number
  | flag
  | list (item : Shape)
  /-- An object with members of any names. -/
  | table (entry : Shape)
  /-- An object, or a list of the fields in order: the name of a field, whether it
  must be given, and its shape. -/
  | record (fields : List (String × Bool × Shape))

namespace Json

/-- Why a text is no value of the expected shape. -/
inductive Fault
  | malformed
  | mismatch
deriving DecidableEq

/-- What is said of a text that could not be read. -/
def Fault.message : Fault → String
  | .malformed => "malformed JSON"
  | .mismatch => "unexpected shape"

end Json

namespace Shape

/-- Whether what is read counts for nothing. -/
def isIgnored : Shape → Bool
  | .ignored => true
  | _ => false

/-- Whether nothing is expected in particular. -/
def isAny : Shape → Bool
  | .any => true
  | _ => false

/-- Whether a list may open. -/
def opensList : Shape → Bool
  | .any | .ignored | .list _ | .record _ => true
  | _ => false

/-- Whether an object may open. -/
def opensObject : Shape → Bool
  | .any | .ignored | .table _ | .record _ => true
  | _ => false

/-- The shape of the item after a number of items, if there may be one. -/
def item? (shape : Shape) (count : Nat) : Option Shape :=
  match shape with
  | .list item => some item
  | .record fields => fields[count]?.map (·.2.2)
  | shape => some shape

/-- Whether a list may close after a number of items. -/
def closesList (shape : Shape) (count : Nat) : Bool :=
  match shape with
  | .record fields => (fields.drop count).all (!·.2.1)
  | _ => true

/-- The shape of the member of a name, after the members of other names. -/
def member (shape : Shape) (seen : List String) (name : String) : Except Json.Fault Shape :=
  match shape with
  | .table entry => .ok entry
  | .record fields =>
    match fields.lookup name with
    | none => .ok .ignored
    | some (_, field) => if seen.contains name then .error .mismatch else .ok field
  | shape => .ok shape

/-- Whether an object may close after the members of some names. -/
def closesObject (shape : Shape) (seen : List String) : Bool :=
  match shape with
  | .record fields => fields.all fun field => !field.2.1 || seen.contains field.1
  | _ => true

/-- Accept a text, if it is expected. -/
def acceptText : Shape → String → Except Json.Fault Json
  | .any, s | .ignored, s | .text, s => .ok (.string s)
  | _, _ => .error .mismatch

/-- Accept a number, if it is expected. -/
def acceptNumber : Shape → Json → Except Json.Fault Json
  | .any, n | .ignored, n | .number, n => .ok n
  | _, _ => .error .mismatch

/-- Accept a truth value, if it is expected. -/
def acceptBool : Shape → Bool → Except Json.Fault Json
  | .any, b | .ignored, b | .flag, b => .ok (.bool b)
  | _, _ => .error .mismatch

/-- Accept `null`, which nothing of a certain kind may be. -/
def acceptNull : Shape → Except Json.Fault Json
  | .any | .ignored => .ok .null
  | _ => .error .mismatch

end Shape

namespace Json

/-- The blanks of JSON: space, tab, line feed and carriage return. -/
def isBlank (c : Char) : Bool := c == ' ' || c == '\t' || c == '\n' || c == '\r'

/-- A text without the blanks in front. -/
def skipBlank (cs : List Char) : List Char := cs.dropWhile isBlank

/-! ## Texts -/

/-- The value of a hexadecimal digit. -/
def hexValue? (c : Char) : Option Nat :=
  if '0' ≤ c ∧ c ≤ '9' then some (c.toNat - '0'.toNat)
  else if 'a' ≤ c ∧ c ≤ 'f' then some (c.toNat - 'a'.toNat + 10)
  else if 'A' ≤ c ∧ c ≤ 'F' then some (c.toNat - 'A'.toNat + 10)
  else none

/-- The code unit of four hexadecimal digits. -/
def codeUnit? (a b c d : Char) : Option Nat := do
  let a ← hexValue? a
  let b ← hexValue? b
  let c ← hexValue? c
  let d ← hexValue? d
  return ((a * 16 + b) * 16 + c) * 16 + d

/-- The character that a letter after a backslash stands for. -/
def escaped? (c : Char) : Option Char :=
  match c with
  | '"' => some '"'
  | '\\' => some '\\'
  | '/' => some '/'
  | 'b' => some '\x08'
  | 'f' => some '\x0c'
  | 'n' => some '\n'
  | 'r' => some '\r'
  | 't' => some '\t'
  | _ => none

/-- The code units and code points up to the closing quote, and what follows it. -/
def codes? : List Char → Option (List Nat × List Char)
  | [] => none
  | '"' :: rest => some ([], rest)
  | '\\' :: 'u' :: a :: b :: c :: d :: rest => do
    let unit ← codeUnit? a b c d
    let (codes, rest) ← codes? rest
    return (unit :: codes, rest)
  | '\\' :: c :: rest => do
    let c ← escaped? c
    let (codes, rest) ← codes? rest
    return (c.toNat :: codes, rest)
  | c :: rest => do
    if c.toNat < 0x20 then none
    let (codes, rest) ← codes? rest
    return (c.toNat :: codes, rest)

/-- The characters of code units and code points. Two surrogates in a row make a
character; `unpaired` stands for one that has no partner, if that is admitted. -/
def characters? (unpaired : Option Char) : List Nat → Option (List Char)
  | [] => some []
  | high :: low :: rest =>
    if 0xD800 ≤ high ∧ high < 0xDC00 ∧ 0xDC00 ≤ low ∧ low < 0xE000 then
      (characters? unpaired rest).map
        (Char.ofNat (0x10000 + (high - 0xD800) * 0x400 + (low - 0xDC00)) :: ·)
    else do
      let c ← if 0xD800 ≤ high ∧ high < 0xE000 then unpaired else some (Char.ofNat high)
      let cs ← characters? unpaired (low :: rest)
      return c :: cs
  | [code] => do
    let c ← if 0xD800 ≤ code ∧ code < 0xE000 then unpaired else some (Char.ofNat code)
    return [c]

/-- The text up to the closing quote. What is ignored may hold surrogates without
a partner. -/
def quoted (ignored : Bool) (cs : List Char) : Except Fault (String × List Char) :=
  let read := do
    let (codes, rest) ← codes? cs
    let text ← characters? (if ignored then some '\uFFFD' else none) codes
    return (String.ofList text, rest)
  match read with
  | some result => .ok result
  | none => .error .malformed

/-! ## Numbers -/

/-- The digits of a fraction or exponent, of which there must be one. -/
def digits? (cs : List Char) : Option (List Char × List Char) :=
  let ds := cs.takeWhile Char.isDigit
  if ds.isEmpty then none else some (ds, cs.dropWhile Char.isDigit)

/-- The whole part of a numeral, which has no leading zero. -/
def whole? (cs : List Char) : Option (List Char × List Char) := do
  let (ds, rest) ← digits? cs
  if ds.head? = some '0' ∧ ds.length ≠ 1 then none
  return (ds, rest)

/-- The fraction of a numeral with its point, if there is one. -/
def fraction? (cs : List Char) : Option (List Char × List Char) :=
  match cs with
  | '.' :: rest => (digits? rest).map fun (ds, rest) => ('.' :: ds, rest)
  | _ => some ([], cs)

/-- The exponent of a numeral with its letter, if there is one. -/
def power? (cs : List Char) : Option (List Char × List Char) :=
  match cs with
  | e :: rest =>
    if e = 'e' ∨ e = 'E' then
      let (sign, rest) := match rest with
        | '-' :: rest => (['-'], rest)
        | '+' :: rest => (['+'], rest)
        | rest => ([], rest)
      (digits? rest).map fun (ds, rest) => (e :: sign ++ ds, rest)
    else some ([], cs)
  | [] => some ([], cs)

/-- A numeral. It is a whole number if it has neither point nor exponent; `-0` is
the negative zero, which is no whole number. -/
def numeral? (cs : List Char) : Option (Json × List Char) := do
  let (sign, rest) := match cs with
    | '-' :: rest => (['-'], rest)
    | rest => ([], rest)
  let (whole, rest) ← whole? rest
  let (fraction, rest) ← fraction? rest
  let (power, rest) ← power? rest
  if fraction.isEmpty ∧ power.isEmpty ∧ (sign.isEmpty ∨ whole ≠ ['0']) then
    let n : Int := Decimal.ofDigits whole
    return (.integer (if sign.isEmpty then n else -n), rest)
  else
    let x ← Number.ofText? (sign ++ whole ++ fraction ++ power)
    return (.number x, rest)

/-- A numeral of a finite number. The size of what is ignored does not matter. -/
def finiteNumeral (ignored : Bool) (cs : List Char) : Except Fault (Json × List Char) :=
  match numeral? cs with
  | some (n, rest) =>
    if ignored ∨ (n.number?.any Number.isFinite) then .ok (n, rest) else .error .malformed
  | none => .error .malformed

/-! ## Values -/

/-- The text behind a comma. -/
def afterComma? (cs : List Char) : Option (List Char) :=
  match cs with
  | ',' :: rest => some rest
  | _ => none

mutual

/-- Read one value and give the text behind it. The fuel bounds the calls below. -/
def readValue (shape : Shape) : (fuel : Nat) → List Char → Except Fault (Json × List Char)
  | 0, _ => .error .malformed
  | fuel + 1, cs =>
    match skipBlank cs with
    | '"' :: rest => do
      let (s, rest) ← quoted shape.isIgnored rest
      return (← shape.acceptText s, rest)
    | '[' :: rest =>
      if shape.opensList then do
        let (items, rest) ← readItems shape fuel 0 rest
        return (.array items, rest)
      else .error .mismatch
    | '\x7b' :: rest =>
      if shape.opensObject then do
        let (members, rest) ← readMembers shape fuel [] rest
        return (.object members, rest)
      else .error .mismatch
    | 't' :: 'r' :: 'u' :: 'e' :: rest => do return (← shape.acceptBool true, rest)
    | 'f' :: 'a' :: 'l' :: 's' :: 'e' :: rest => do return (← shape.acceptBool false, rest)
    | 'n' :: 'u' :: 'l' :: 'l' :: rest => do return (← shape.acceptNull, rest)
    | cs => do
      let (n, rest) ← finiteNumeral shape.isIgnored cs
      return (← shape.acceptNumber n, rest)

/-- Read the items of a list after the first `count` up to its closing bracket. -/
def readItems (shape : Shape) : (fuel count : Nat) → List Char →
    Except Fault (List Json × List Char)
  | 0, _, _ => .error .malformed
  | fuel + 1, count, cs =>
    match skipBlank cs with
    | ']' :: rest => if shape.closesList count then .ok ([], rest) else .error .mismatch
    | cs =>
      -- A comma stands before every item but the first.
      match (if count = 0 then some cs else afterComma? cs), shape.item? count with
      | some cs, some item => do
        let (value, rest) ← readValue item fuel cs
        let (items, rest) ← readItems shape fuel (count + 1) rest
        return (value :: items, rest)
      | _, _ => .error .malformed

/-- Read the members of an object behind those of the names `seen` up to its
closing brace. -/
def readMembers (shape : Shape) : (fuel : Nat) → (seen : List String) → List Char →
    Except Fault (List (String × Json) × List Char)
  | 0, _, _ => .error .malformed
  | fuel + 1, seen, cs =>
    match skipBlank cs with
    | '\x7d' :: rest => if shape.closesObject seen then .ok ([], rest) else .error .mismatch
    | cs =>
      match (if seen.isEmpty then some cs else afterComma? cs).map skipBlank with
      | some ('"' :: rest) => do
        let (name, rest) ← quoted shape.isIgnored rest
        let field ← shape.member seen name
        match skipBlank rest with
        | ':' :: rest => do
          let (value, rest) ← readValue field fuel rest
          let (members, rest) ← readMembers shape fuel (name :: seen) rest
          return ((name, value) :: members, rest)
        | _ => .error .malformed
      | _ => .error .malformed

end

/-- Read the value that a text begins with, and give the text behind it. Between
two calls for a value at most one goes by without taking a character. -/
def readAs (shape : Shape) (text : String) : Except Fault (Json × List Char) :=
  readValue shape (2 * text.length + 2) text.toList

/-! ## Whole texts -/

mutual

/-- How deep lists and objects are nested in a value. -/
def depth : Json → Nat
  | .array items => depthOfItems items + 1
  | .object members => depthOfMembers members + 1
  | _ => 0

/-- How deep lists and objects are nested in the items of a list. -/
def depthOfItems : List Json → Nat
  | [] => 0
  | item :: rest => max item.depth (depthOfItems rest)

/-- How deep lists and objects are nested in the members of an object. -/
def depthOfMembers : List (String × Json) → Nat
  | [] => 0
  | (_, value) :: rest => max value.depth (depthOfMembers rest)

end

/-- How deep a value of unknown shape may be nested. -/
def maxDepth : Nat := 127

/-- Read a text that is a value and nothing else but blanks, and that is not nested too
deep for its shape. -/
def readWhole (shape : Shape) (text : String) : Except Fault Json := do
  let (json, rest) ← readAs shape text
  if (skipBlank rest).isEmpty ∧ (shape.isAny → json.depth ≤ maxDepth) then return json
  else throw .malformed

/-- The value of a text, whatever its shape. -/
def parse? (text : String) : Option Json := (readWhole .any text).toOption

end Json

end Stepwise
