import Stepwise.Json.Library
import Stepwise.Session.Json
import Stepwise.Session.Line

/-!
# Requests

What a client asks for: the solution of a session line, or a line with a button's
edit. Requests are read from JSON against their shapes.
-/

namespace Stepwise.Service

/-- The shape of a button. -/
def buttonShape : Shape := .record [
  ("text", true, .text),
  ("set", false, .table .number),
  ("libraries", false, .list .text),
  ("hints", false, .list .text),
  ("primary", false, .flag)]

/-- Ask for the solution of a line. -/
structure SolveRequest where
  script : String

/-- Ask for a line with a button's edit. -/
structure EditRequest where
  script : String
  button : Button

namespace SolveRequest

/-- The shape of a request for a solution. -/
def shape : Shape := .record [("script", true, .text)]

/-- Read a request for a solution. -/
def ofJson? (json : Json) : Option SolveRequest :=
  (json.required 0 "script" Json.text?).map fun script => { script }

/-- How a request for a solution is read. -/
def decoder : Json.Decoder SolveRequest := { shape, ofJson? }

end SolveRequest

namespace EditRequest

/-- The shape of a request for an edit. -/
def shape : Shape := .record [("script", true, .text), ("button", true, buttonShape)]

/-- Read a request for an edit. -/
def ofJson? (json : Json) : Option EditRequest := do
  let script ← json.required 0 "script" Json.text?
  let button ← json.required 1 "button" Button.ofJson?
  return { script, button }

/-- How a request for an edit is read. -/
def decoder : Json.Decoder EditRequest := { shape, ofJson? }

/-- A request for an edit as JSON. -/
def toJson (r : EditRequest) : Json :=
  .object [("script", .string r.script), ("button", r.button.toJson)]

/-- The line that is asked for. -/
def answer (r : EditRequest) : String := Session.editLine r.script r.button

end EditRequest

end Stepwise.Service
