import Stepwise.Expr.Render
import Stepwise.Session.Basic

/-!
# Steps of a solution

A solution is a list of steps: what could not be understood, what is suggested or
assumed, which relations were used, and at the end all values known.
-/

namespace Stepwise

/-- An input of a relation and the value it had. -/
structure Given where
  quantity : Quantity
  value : Float

/-- The use of a relation. -/
structure Solved where
  title : String
  description : String
  /-- The inputs with their values, in the order of declaration. -/
  given : List Given
  /-- The quantity found. -/
  unknown : Quantity
  /-- The formula of the relation. -/
  equation : Expr
  /-- The value found, rounded. -/
  result : Float
  /-- The formula with the values of the inputs. -/
  substituted : Expr

/-- A remark with suggested edits. -/
structure Hint where
  message : String
  buttons : List Button

/-- One step of a solution. -/
inductive Step
  | error (message : String)
  | solved (solved : Solved)
  | hint (hint : Hint)
  | summary (values : Bindings)

namespace Step

/-- Whether a step is an error. -/
def isError : Step → Bool
  | .error _ => true
  | _ => false

/-- The relation that a step used. -/
def solved? : Step → Option Solved
  | .solved s => some s
  | _ => none

/-- The hint that a step is. -/
def hint? : Step → Option Hint
  | .hint h => some h
  | _ => none

/-- The text of a step. -/
def text : Step → String
  | .error message => "error: " ++ message
  | .solved s =>
    s.title ++ ": " ++ s.unknown.name ++ " = " ++ s.equation.text ++ " = " ++
      s.substituted.text ++ " = " ++ Number.text s.result
  | .hint h => "hint: " ++ h.message
  | .summary values =>
    "summary:" ++ String.join
      (values.entries.map fun (name, value) => " " ++ name ++ "=" ++ Number.text value)

end Step

end Stepwise
