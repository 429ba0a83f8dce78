import Stepwise.Bindings
import Stepwise.Number.Decimal

/-!
# JSON values

Whole numbers written without point and exponent are kept apart from other
numbers, because an exponent of a formula must be one of them. A **record** is
given as an object or as the list of its fields in order, so a field is looked up
by its key and its position; the part found is smaller than the value it came from,
on which the readers of trees rely.
-/

namespace Stepwise

/-- A JSON value. The members of an object keep their order. -/
inductive Json
  | null
  | bool (b : Bool)
  | integer (n : Int)
  | number (x : Float)
  | string (s : String)
  | array (items : List Json)
  | object (members : List (String × Json))

namespace Json

instance : Inhabited Json := ⟨.null⟩

/-- A number as JSON: what is not finite has no notation and becomes `null`. -/
def ofFloat (x : Float) : Json := if Number.isFinite x then .number x else .null

/-- A list of texts as JSON. -/
def ofTexts (texts : List String) : Json := .array (texts.map .string)

/-- A table of values as JSON. -/
def ofBindings (b : Bindings) : Json :=
  .object (b.entries.map fun (name, value) => (name, ofFloat value))

/-- A value that is a text. -/
def text? : Json → Option String
  | .string s => some s
  | _ => none

/-- A value that is a number. -/
def number? : Json → Option Float
  | .integer n => some (Number.ofInt n)
  | .number x => some x
  | _ => none

/-- A value that is a truth value. -/
def bool? : Json → Option Bool
  | .bool b => some b
  | _ => none

/-- A value that is a whole number of 32 bits. -/
def int32? : Json → Option Int32
  | .integer n => if (Int32.ofInt n).toInt = n then some (.ofInt n) else none
  | _ => none

/-- A value that is a list. -/
def items? : Json → Option (List Json)
  | .array items => some items
  | _ => none

/-- A value that is a list of texts. -/
def texts? (json : Json) : Option (List String) := json.items?.bind (·.mapM text?)

/-- A value that is a table of numbers; of several members of a name the last counts. -/
def bindings? : Json → Option Bindings
  | .object members =>
    (members.mapM fun m => (number? m.2).map (m.1, ·)).map .ofList
  | _ => none

/-- A text, or none for `null`. -/
def textOrNull? : Json → Option (Option String)
  | .null => some none
  | .string s => some (some s)
  | _ => none

/-! ## Records -/

/-- A value inside another. -/
abbrev Part (json : Json) : Type := { part : Json // sizeOf part < sizeOf json }

theorem sizeOf_items_lt (items : List Json) : sizeOf items < sizeOf (Json.array items) := by
  simp only [Json.array.sizeOf_spec]
  omega

theorem sizeOf_item_lt {items : List Json} {item : Json} (h : item ∈ items) :
    sizeOf item < sizeOf (Json.array items) := by
  have := List.sizeOf_lt_of_mem h
  simp only [Json.array.sizeOf_spec]
  omega

theorem sizeOf_member_lt {members : List (String × Json)} {m : String × Json} (h : m ∈ members) :
    sizeOf m.2 < sizeOf (Json.object members) := by
  have hm := List.sizeOf_lt_of_mem h
  have hvalue : sizeOf m.2 < sizeOf m := by
    cases m
    simp only [Prod.mk.sizeOf_spec]
    omega
  simp only [Json.object.sizeOf_spec]
  omega

/-- The field of a record with a position and a key. -/
def field? (json : Json) (position : Nat) (key : String) : Option (Part json) :=
  match json with
  | .array items =>
    match h : items[position]? with
    | some item => some ⟨item, sizeOf_item_lt (List.mem_of_getElem? h)⟩
    | none => none
  | .object members =>
    match h : members.find? (·.1 == key) with
    | some m => some ⟨m.2, sizeOf_member_lt (List.mem_of_find?_eq_some h)⟩
    | none => none
  | _ => none

/-- Fails unless a value can be a record of a number of fields: it is an object, or
a list with no more items. -/
def record? (json : Json) (fields : Nat) : Option Unit :=
  match json with
  | .object _ => some ()
  | .array items => if items.length ≤ fields then some () else none
  | _ => none

/-- A field that a record must have. -/
def required (json : Json) (position : Nat) (key : String) (read : Json → Option α) : Option α :=
  (json.field? position key).bind fun part => read part.1

/-- A field that a record may lack. -/
def optional (json : Json) (position : Nat) (key : String) (read : Json → Option α)
    (absent : α) : Option α :=
  match json.field? position key with
  | none => some absent
  | some part => read part.1

end Json

end Stepwise
