import Stepwise.Json.Basic
import Stepwise.Session.Basic

/-!
# Sessions and buttons as JSON

What a button leaves empty is left out when it is written, and may be missing when
it is read. A session has all of its fields.
-/

namespace Stepwise

namespace Button

/-- A button as JSON. -/
def toJson (b : Button) : Json :=
  .object ([("text", .string b.text)] ++
    (if b.set.isEmpty then [] else [("set", .ofBindings b.set)]) ++
    (if b.libraries.isEmpty then [] else [("libraries", .ofTexts b.libraries)]) ++
    (if b.hints.isEmpty then [] else [("hints", .ofTexts b.hints)]) ++
    (if b.primary then [("primary", .bool true)] else []))

/-- Read a button. -/
def ofJson? (json : Json) : Option Button := do
  json.record? 5
  let text ← json.required 0 "text" Json.text?
  let set ← json.optional 1 "set" Json.bindings? .empty
  let libraries ← json.optional 2 "libraries" Json.texts? []
  let hints ← json.optional 3 "hints" Json.texts? []
  let primary ← json.optional 4 "primary" Json.bool? false
  return { text, set, libraries, hints, primary }

end Button

namespace Session

/-- Read a session. -/
def ofJson? (json : Json) : Option Session := do
  json.record? 3
  let libraries ← json.required 0 "libraries" Json.texts?
  let hints ← json.required 1 "hints" Json.texts?
  let values ← json.required 2 "variables" Json.bindings?
  return { libraries, hints, values }

end Session

end Stepwise
