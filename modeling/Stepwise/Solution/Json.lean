import Stepwise.Expr.Json
import Stepwise.Session.Json
import Stepwise.Solution.Step

/-!
# Steps as JSON

Every step is a record whose first field, `kind`, names its kind. The formulas of
a solved step are written as they are, without the groups of their texts.
-/

namespace Stepwise

namespace Given

/-- An input and its value as JSON. -/
def toJson (g : Given) : Json :=
  .object [("variable", g.quantity.toJson), ("value", .ofFloat g.value)]

/-- Read an input and its value. -/
def ofJson? (json : Json) : Option Given := do
  json.record? 2
  let quantity ← json.required 0 "variable" Quantity.ofJson?
  let value ← json.required 1 "value" Json.number?
  return { quantity, value }

end Given

namespace Step

/-- A step as JSON. -/
def toJson : Step → Json
  | .error message => .object [("kind", .string "error"), ("message", .string message)]
  | .solved s => .object [
      ("kind", .string "solved"),
      ("title", .string s.title),
      ("description", .string s.description),
      ("given", .array (s.given.map Given.toJson)),
      ("unknown", s.unknown.toJson),
      ("equation", s.equation.toJson),
      ("result", .ofFloat s.result),
      ("substituted", s.substituted.toJson)]
  | .hint h => .object [
      ("kind", .string "hint"),
      ("message", .string h.message),
      ("quick_buttons", .array (h.buttons.map Button.toJson))]
  | .summary values =>
    .object [("kind", .string "summary"), ("variables", .ofBindings values)]

/-- Read a step. -/
def ofJson? (json : Json) : Option Step := do
  let kind ← json.required 0 "kind" Json.text?
  match kind with
  | "error" =>
    json.record? 2
    return .error (← json.required 1 "message" Json.text?)
  | "solved" =>
    json.record? 8
    let title ← json.required 1 "title" Json.text?
    let description ← json.required 2 "description" Json.text?
    let given ← json.required 3 "given" fun g => g.items?.bind (·.mapM Given.ofJson?)
    let unknown ← json.required 4 "unknown" Quantity.ofJson?
    let equation ← json.required 5 "equation" Expr.ofPart?
    let result ← json.required 6 "result" Json.number?
    let substituted ← json.required 7 "substituted" Expr.ofPart?
    return .solved { title, description, given, unknown, equation, result, substituted }
  | "hint" =>
    json.record? 3
    let message ← json.required 1 "message" Json.text?
    let buttons ← json.required 2 "quick_buttons" fun b => b.items?.bind (·.mapM Button.ofJson?)
    return .hint { message, buttons }
  | "summary" =>
    json.record? 2
    return .summary (← json.required 1 "variables" Json.bindings?)
  | _ => none

/-- The steps of a solution as JSON. -/
def listToJson (steps : List Step) : Json := .array (steps.map toJson)

/-- Read the steps of a solution. -/
def listOfJson? (json : Json) : Option (List Step) := json.items?.bind (·.mapM ofJson?)

end Step

end Stepwise
