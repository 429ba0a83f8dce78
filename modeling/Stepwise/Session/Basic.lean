import Stepwise.Bindings

/-!
# Sessions and the buttons that edit them

A session is what a user has said: the catalogs imported, the hints that are
active and the values that are known. A button is a suggested edit of a session.
It overwrites values, and adds the catalogs and hints that are not yet there.
-/

namespace Stepwise

/-- What a user has said so far. -/
structure Session where
  /-- The imported catalogs in the order of import. -/
  libraries : List String
  /-- The active hints. -/
  hints : List String
  /-- The known values. -/
  values : Bindings
deriving BEq, Inhabited

/-- A suggested edit of a session. -/
structure Button where
  /-- What the button says. -/
  text : String
  /-- The values to overwrite. -/
  set : Bindings := .empty
  /-- The catalogs to import. -/
  libraries : List String := []
  /-- The hints to activate. -/
  hints : List String := []
  /-- Whether this is the recommended edit. -/
  primary : Bool := false
deriving Inhabited

namespace Button

/-- The button that sets one value. -/
def setting (text name : String) (value : Float) : Button :=
  { text, set := Bindings.empty.insert name value }

/-- The button that imports one catalog. -/
def importing (text library : String) : Button := { text, libraries := [library] }

/-- The button that activates one hint. -/
def activating (text hint : String) : Button := { text, hints := [hint] }

/-- The button as the recommended edit. -/
def recommended (b : Button) : Button := { b with primary := true }

end Button

namespace Session

/-- Nothing is said. -/
def empty : Session := ⟨[], [], .empty⟩

/-- Whether a hint is active. -/
def hasHint (s : Session) (hint : String) : Bool := s.hints.contains hint

/-- A list with the items that it lacks added at the end, each once. -/
def addMissing (list items : List String) : List String :=
  items.foldl (fun l x => if l.contains x then l else l ++ [x]) list

/-- The session after a button is pressed. -/
def apply (s : Session) (b : Button) : Session where
  libraries := addMissing s.libraries b.libraries
  hints := addMissing s.hints b.hints
  values := s.values.insertAll b.set.entries

end Session

end Stepwise
