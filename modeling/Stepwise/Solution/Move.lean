import Stepwise.Catalog.Basic
import Stepwise.Expr.Evaluate
import Stepwise.Number.Decimal
import Stepwise.Solution.Step

/-!
# Moves

From the values that the user knows, a solution is derived by **moves**. A move
either uses a relation or assumes a default value, and binds one name:

> `nextMove?` picks the first applicable relation, in the order of import and then
> of declaration; if there is none, the first default of an unbound name.

What a relation gives is kept to hundredths (`roundResult`). It is finite unless the
value was too large or no number to begin with.
-/

namespace Stepwise

/-- A relation of a catalog that failed on the values at hand. -/
structure SolveFault where
  catalog : String
  relation : String
  cause : EvalFault

/-- What is said of a relation that failed. -/
def SolveFault.message (f : SolveFault) : String :=
  "Relation \"" ++ f.relation ++ "\" in '" ++ f.catalog ++ "' failed: " ++ f.cause.message

/-- A value rounded to two decimals, a half upward. -/
def roundResult (value : Float) : Float := Binary.floor (value * 100.0 + 0.5) / 100.0

/-- The hint that turns default values off. -/
def noImplicit : String := "no-implicit"

/-- One move of a derivation. -/
inductive Move
  /-- Use a relation of a catalog. -/
  | fire (catalog : String) (relation : Relation)
  /-- Assume a default value. -/
  | assume (name : String) (value : Float)

namespace Move

/-- The name that a move binds. -/
def target : Move → String
  | .fire _ relation => relation.gives.name
  | .assume name _ => name

/-- The use of a relation on given values. -/
def solve (relation : Relation) (b : Bindings) : Except EvalFault Solved := do
  let substituted ← relation.formula.substitute b
  let value ← substituted.evaluate
  return {
    title := relation.title
    description := relation.description
    -- Every input of an applicable relation is bound, so none is left out.
    given := relation.takes.filterMap fun q => (b.get? q.name).map (⟨q, ·⟩)
    unknown := relation.gives
    equation := relation.formula
    result := roundResult value
    substituted }

/-- What is said of an assumed value, with the edits that confirm it or turn all
assumptions off. -/
def assumption (name : String) (value : Float) : Hint where
  message := name ++ " is implicitly " ++ Number.text value
  buttons := [(Button.setting "Make explicit" name value).recommended,
    .activating "Disable implicit variables" noImplicit]

/-- Make a move: the step that it is and the value that it gives its name. -/
def perform (b : Bindings) : Move → Except SolveFault (Step × Float)
  | .fire catalog relation =>
    match solve relation b with
    | .ok solved => .ok (.solved solved, solved.result)
    | .error cause => .error ⟨catalog, relation.title, cause⟩
  | .assume name value => .ok (.hint (assumption name value), value)

end Move

/-- The relations of some catalogs, each with the name of its catalog, in the order
of import and then of declaration. -/
def relationsOf (imports : List Catalog) : List (String × Relation) :=
  imports.flatMap fun c => c.relations.map (c.name, ·)

/-- The default values of some catalogs in the order of import and then of declaration. -/
def implicitsOf (imports : List Catalog) : List (String × Float) :=
  imports.flatMap (·.implicits)

/-- The first applicable relation. -/
def nextRelation? (imports : List Catalog) (b : Bindings) : Option Move :=
  ((relationsOf imports).find? (·.2.isApplicable b)).map fun r => .fire r.1 r.2

/-- The first default value of an unbound name. -/
def nextImplicit? (imports : List Catalog) (b : Bindings) : Option Move :=
  ((implicitsOf imports).find? (!b.contains ·.1)).map fun i => .assume i.1 i.2

/-- The next move. Nothing is assumed while a relation can be used, nor ever if
`assuming` is false. -/
def nextMove? (imports : List Catalog) (assuming : Bool) (b : Bindings) : Option Move :=
  (nextRelation? imports b).or (if assuming then nextImplicit? imports b else none)

end Stepwise
