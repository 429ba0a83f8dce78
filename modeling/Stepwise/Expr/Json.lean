import Stepwise.Expr.Basic
import Stepwise.Json.Basic

/-!
# Formulas as JSON

Every node is a record whose first field, `op`, names its kind. A unit that is not
there is left out, and read back as absent from `null` too.

Reading admits more than writing produces: a node inside another value may give the
number of its kind, and a function may be written as a record of its own.
-/

namespace Stepwise

/-- The member of a unit, if there is one. -/
def unitMember : Option String → List (String × Json)
  | none => []
  | some unit => [("unit", .string unit)]

namespace Quantity

/-- A quantity as JSON. -/
def toJson (q : Quantity) : Json := .object (("name", .string q.name) :: unitMember q.unit)

/-- A quantity whose fields begin at a position of a record. -/
def ofFields? (json : Json) (position : Nat) : Option Quantity := do
  json.record? (position + 2)
  let name ← json.required position "name" Json.text?
  let unit ← json.optional (position + 1) "unit" Json.textOrNull? none
  return ⟨name, unit⟩

/-- Read a quantity. -/
def ofJson? (json : Json) : Option Quantity := ofFields? json 0

end Quantity

namespace AngleFunction

/-- The name of a function as data. -/
def tag : AngleFunction → String
  | .sin => "sin"
  | .cos => "cos"
  | .tan => "tan"
  | .atan => "atan"
  | .reference => "reference"

/-- Read the name of a function. -/
def ofTag? : String → Option AngleFunction
  | "sin" => some .sin
  | "cos" => some .cos
  | "tan" => some .tan
  | "atan" => some .atan
  | "reference" => some .reference
  | _ => none

theorem ofTag?_tag (f : AngleFunction) : ofTag? f.tag = some f := by cases f <;> rfl

/-- Read a function: its name, or an object whose one key is the name and whose value
says nothing more. -/
def ofJson? : Json → Option AngleFunction
  | .string name => ofTag? name
  | .object [(name, .null)] => ofTag? name
  | .object [(name, .object [])] => ofTag? name
  | _ => none

end AngleFunction

namespace Expr

mutual

/-- A formula as JSON. -/
def toJson : Expr → Json
  | .literal value unit =>
    .object (("op", .string "literal") :: ("value", .ofFloat value) :: unitMember unit)
  | .variable q =>
    .object (("op", .string "variable") :: ("name", .string q.name) :: unitMember q.unit)
  | .sum terms => .object [("op", .string "sum"), ("terms", .array (toJsons terms))]
  | .product factors => .object [("op", .string "product"), ("factors", .array (toJsons factors))]
  | .difference left right =>
    .object [("op", .string "sub"), ("left", left.toJson), ("right", right.toJson)]
  | .quotient left right =>
    .object [("op", .string "divide"), ("left", left.toJson), ("right", right.toJson)]
  | .sqrt operand => .object [("op", .string "sqrt"), ("operand", operand.toJson)]
  | .power base exponent =>
    .object [("op", .string "pow"), ("base", base.toJson), ("exponent", .integer exponent.toInt)]
  | .group inner => .object [("op", .string "paren"), ("inner", inner.toJson)]
  | .call function argument =>
    .object [("op", .string "call"), ("function", .string function.tag), ("arg", argument.toJson)]

/-- The operands of a formula as JSON. -/
def toJsons : List Expr → List Json
  | [] => []
  | e :: rest => e.toJson :: toJsons rest

end

/-- The kinds of nodes, in the order in which they are numbered. -/
def kinds : List String :=
  ["literal", "variable", "sum", "product", "sub", "divide", "sqrt", "pow", "paren", "call"]

/-- The kind of a node: its name or, `inside` another value, its number. -/
def kind? (inside : Bool) : Json → Option String
  | .string name => some name
  | .integer (.ofNat n) => if inside then kinds[n]? else none
  | _ => none

mutual

/-- Read a formula, which may stand `inside` another value. -/
def read? (inside : Bool) (json : Json) : Option Expr := do
  let op ← json.required 0 "op" (kind? inside)
  match op with
  | "literal" =>
    json.record? 3
    let value ← json.required 1 "value" Json.number?
    let unit ← json.optional 2 "unit" Json.textOrNull? none
    return .literal value unit
  | "variable" => return .variable (← Quantity.ofFields? json 1)
  | "sum" =>
    json.record? 2
    match json.field? 1 "terms" with
    | some ⟨.array items, _⟩ => return .sum (← readAll? items)
    | _ => none
  | "product" =>
    json.record? 2
    match json.field? 1 "factors" with
    | some ⟨.array items, _⟩ => return .product (← readAll? items)
    | _ => none
  | "sub" =>
    json.record? 3
    let ⟨left, _⟩ ← json.field? 1 "left"
    let ⟨right, _⟩ ← json.field? 2 "right"
    return .difference (← read? true left) (← read? true right)
  | "divide" =>
    json.record? 3
    let ⟨left, _⟩ ← json.field? 1 "left"
    let ⟨right, _⟩ ← json.field? 2 "right"
    return .quotient (← read? true left) (← read? true right)
  | "sqrt" =>
    json.record? 2
    let ⟨operand, _⟩ ← json.field? 1 "operand"
    return .sqrt (← read? true operand)
  | "pow" =>
    json.record? 3
    let ⟨base, _⟩ ← json.field? 1 "base"
    let exponent ← json.required 2 "exponent" Json.int32?
    return .power (← read? true base) exponent
  | "paren" =>
    json.record? 2
    let ⟨inner, _⟩ ← json.field? 1 "inner"
    return .group (← read? true inner)
  | "call" =>
    json.record? 3
    let function ← json.required 1 "function" AngleFunction.ofJson?
    let ⟨argument, _⟩ ← json.field? 2 "arg"
    return .call function (← read? true argument)
  | _ => none
termination_by sizeOf json
decreasing_by
  · have := Json.sizeOf_items_lt items
    omega
  · have := Json.sizeOf_items_lt items
    omega
  all_goals assumption

/-- Read the operands of a formula. -/
def readAll? : List Json → Option (List Expr)
  | [] => some []
  | item :: rest => do
    let e ← read? true item
    let es ← readAll? rest
    return e :: es
termination_by items => sizeOf items

end

/-- Read a formula that is a whole value. -/
def ofJson? (json : Json) : Option Expr := read? false json

/-- Read a formula that is a part of a value. -/
def ofPart? (json : Json) : Option Expr := read? true json

end Expr

end Stepwise
