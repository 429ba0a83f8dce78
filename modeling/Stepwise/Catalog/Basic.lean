import Stepwise.Expr.Basic
import Stepwise.Session.Basic

/-!
# Catalogs of relations

A relation computes one quantity from others by a formula. A catalog is a named
list of relations with default values for some quantities and checks of what the
user entered.

A catalog is **sound** if no relation takes its own output and every formula names
declared inputs only; `Catalog.fault?` reports the first fault in the order of
declaration.
-/

namespace Stepwise

/-- A directed rule: the quantity `gives` is `formula` of the quantities `takes`. -/
structure Relation where
  title : String
  description : String
  takes : List Quantity
  gives : Quantity
  formula : Expr
  /-- Values that quantities must have before the relation may be used. -/
  presumes : Bindings := .empty

namespace Relation

/-- A relation can be used if its output is unknown, every input is known and
every presumed value is the current one. -/
def isApplicable (r : Relation) (b : Bindings) : Bool :=
  !b.contains r.gives.name && r.takes.all (b.contains ·.name) &&
    r.presumes.entries.all fun (name, value) => b.get? name == some value

/-- Whether a name is among the inputs. -/
def takesName (r : Relation) (name : String) : Bool := r.takes.any (·.name == name)

end Relation

/-- A message about what the user entered, with suggested edits. -/
structure Advice where
  text : String
  actions : List Button

/-- A check of the user's values, made once before solving. Whatever it checks, the hint
`ignore-<id>` bypasses it. -/
structure Warning where
  /-- The name of the check, by which it can be silenced. -/
  id : String
  check : Bindings → Option Advice

namespace Warning

/-- The hint that silences a warning. Every warning keeps to the contract that this is
`ignore-` and its name: no warning has a hint of its own. -/
def bypass (w : Warning) : String := "ignore-" ++ w.id

/-- A warning on the value of one quantity. -/
def onValue (id name : String) (fires : Float → Bool) (advice : Float → Advice) : Warning where
  id
  check b := (b.get? name).bind fun value => if fires value then some (advice value) else none

end Warning

/-- A named list of relations with what belongs to them. -/
structure Catalog where
  name : String
  relations : List Relation
  /-- Default values in the order in which they are assumed. -/
  implicits : List (String × Float) := []
  warnings : List Warning := []

/-- Why a catalog cannot be registered. -/
inductive CatalogFault
  /-- There is a catalog of that name. -/
  | duplicate (catalog : String)
  /-- A relation takes its own output. -/
  | outputAmongInputs (catalog relation name : String)
  /-- A formula names a quantity that its relation does not take. -/
  | undeclaredInput (catalog relation name : String)
deriving DecidableEq

/-- What is said of a catalog that cannot be registered. -/
def CatalogFault.message : CatalogFault → String
  | .duplicate catalog => "Family '" ++ catalog ++ "' already exists"
  | .outputAmongInputs catalog relation name =>
    "Relation \"" ++ relation ++ "\" in '" ++ catalog ++ "' takes its own output " ++ name
  | .undeclaredInput catalog relation name =>
    "Relation \"" ++ relation ++ "\" in '" ++ catalog ++ "' references undeclared input " ++ name

/-- The fault of a relation in a catalog. Taking one's own output comes first; of
undeclared names the leftmost is reported. -/
def Relation.fault? (r : Relation) (catalog : String) : Option CatalogFault :=
  if r.takesName r.gives.name then
    some (.outputAmongInputs catalog r.title r.gives.name)
  else
    (r.formula.names.find? fun name => !r.takesName name).map
      (.undeclaredInput catalog r.title)

namespace Catalog

/-- The fault of the first faulty relation. -/
def fault? (c : Catalog) : Option CatalogFault := c.relations.findSome? (·.fault? c.name)

/-- The hints that silence the warnings of a catalog. -/
def bypasses (c : Catalog) : List String := c.warnings.map Warning.bypass

end Catalog

end Stepwise
