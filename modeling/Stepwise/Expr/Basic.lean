/-!
# Expressions

The formulas of catalogs: trees over numbers and named quantities. Sums and
products have any number of operands; an exponent is a whole number and part of
the tree. A `group` is a pair of parentheses that someone wrote, and changes no
value.
-/

namespace Stepwise

/-- A named quantity with an optional unit, which is for display alone. -/
structure Quantity where
  name : String
  unit : Option String := none
deriving DecidableEq, Inhabited

/-- Functions of one argument. Angles are in degrees. -/
inductive AngleFunction
  | sin
  | cos
  | tan
  | atan
  /-- The angle to the next axis. -/
  | reference
deriving DecidableEq

namespace AngleFunction

/-- The name of a function in a formula's text. -/
def name : AngleFunction → String
  | .sin => "sin"
  | .cos => "cos"
  | .tan => "tan"
  | .atan => "atan"
  | .reference => "ref"

end AngleFunction

/-- A formula. -/
inductive Expr
  | literal (value : Float) (unit : Option String)
  | variable (quantity : Quantity)
  | sum (terms : List Expr)
  | product (factors : List Expr)
  | difference (left right : Expr)
  | quotient (left right : Expr)
  | sqrt (operand : Expr)
  | power (base : Expr) (exponent : Int32)
  | group (inner : Expr)
  | call (function : AngleFunction) (argument : Expr)

instance : Inhabited Expr := ⟨.sum []⟩

instance : Coe Quantity Expr := ⟨.variable⟩

/-- A number without a unit. -/
def Expr.number (value : Float) : Expr := .literal value none

namespace Expr

mutual

/-- The names in a formula from left to right, repeated as often as they occur. -/
def occurrences : Expr → List String
  | .literal .. => []
  | .variable q => [q.name]
  | .sum terms => occurrencesIn terms
  | .product factors => occurrencesIn factors
  | .difference left right => left.occurrences ++ right.occurrences
  | .quotient left right => left.occurrences ++ right.occurrences
  | .sqrt operand => operand.occurrences
  | .power base _ => base.occurrences
  | .group inner => inner.occurrences
  | .call _ argument => argument.occurrences

/-- The names in a list of operands from left to right. -/
def occurrencesIn : List Expr → List String
  | [] => []
  | e :: rest => e.occurrences ++ occurrencesIn rest

end

/-- The names in a formula, each once, in the order of their first occurrence. -/
def names (e : Expr) : List String := e.occurrences.eraseDups

/-- Whether a formula names no quantity. -/
def isGround (e : Expr) : Bool := e.occurrences.isEmpty

end Expr

end Stepwise
