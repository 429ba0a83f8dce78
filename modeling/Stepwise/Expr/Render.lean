import Stepwise.Expr.Basic
import Stepwise.Number.Decimal

/-!
# Formulas as text

`render` puts a `group` around an operand exactly where its text would otherwise
be read with other operands, and nowhere else; `text` prints the rendered tree.
Whether an operand needs a group hangs on its **rank**, from the tightest to the
loosest, and on the **slot** that it stands in.
-/

namespace Stepwise

/-- How loosely the outermost operator of a formula binds, the tightest first. -/
inductive Rank
  | literal
  | multiply
  | divide
  | sum
  | subtraction
  | sqrt
  | power
  | function
  | group
deriving DecidableEq

namespace Rank

/-- The place of a rank in the order from the tightest to the loosest. -/
def level : Rank → Nat
  | .literal => 0
  | .multiply => 1
  | .divide => 2
  | .sum => 3
  | .subtraction => 4
  | .sqrt => 5
  | .power => 6
  | .function => 7
  | .group => 8

end Rank

/-- The place of an operand in its formula. -/
inductive Slot
  /-- A place that admits ranks up to `loosest` without a group. -/
  | operand (loosest : Rank)
  /-- A term of a sum after the first, where a leading minus would be taken for a
  subtraction. -/
  | laterTerm
  /-- The base of a power, where only a single symbol fits. -/
  | powerBase
deriving DecidableEq

namespace Expr

/-- The rank of a formula. A negative number has the rank of the minus that it is
written with. -/
def rank : Expr → Rank
  | .literal value _ => if value < 0.0 then .subtraction else .literal
  | .variable _ => .literal
  | .sum _ => .sum
  | .product _ => .multiply
  | .difference .. => .subtraction
  | .quotient .. => .divide
  | .sqrt _ => .sqrt
  | .power .. => .power
  | .group _ => .group
  | .call .. => .function

/-- Whether a rendered operand needs a group in its slot. Groups, roots and calls
delimit themselves; a power does in every slot but the base of another. -/
def needsGroup (e : Expr) (slot : Slot) : Bool :=
  match e, slot with
  | .group _, _ | .sqrt _, _ | .call .., _ => false
  | .power .., .operand _ | .power .., .laterTerm => false
  | .literal value _, .laterTerm => value < 0.0
  | e, .laterTerm => Rank.subtraction.level < e.rank.level
  | e, .powerBase => Rank.literal.level < e.rank.level
  | e, .operand loosest => loosest.level < e.rank.level

/-- A rendered operand as it stands in its slot. -/
def fit (slot : Slot) (e : Expr) : Expr := if e.needsGroup slot then .group e else e

mutual

/-- The formula with the groups that its text needs. -/
def render : Expr → Expr
  | .literal value unit => .literal value unit
  | .variable q => .variable q
  | .sum terms => .sum (renderTerms terms)
  | .product factors => .product (renderAll (.operand .multiply) factors)
  | .difference left right =>
    .difference (fit (.operand .subtraction) left.render) (fit (.operand .divide) right.render)
  | .quotient left right =>
    .quotient (fit (.operand .divide) left.render) (fit (.operand .literal) right.render)
  | .sqrt operand => .sqrt operand.render
  | .power base exponent => .power (fit .powerBase base.render) exponent
  | .group inner => .group inner.render
  | .call function argument => .call function argument.render

/-- The terms of a sum, the first of which may begin with a minus. -/
def renderTerms : List Expr → List Expr
  | [] => []
  | first :: later => fit (.operand .subtraction) first.render :: renderAll .laterTerm later

/-- Operands that all stand in slots of one kind. -/
def renderAll (slot : Slot) : List Expr → List Expr
  | [] => []
  | e :: rest => fit slot e.render :: renderAll slot rest

end

mutual

/-- The text of a formula as it stands, with no groups of its own. -/
def plainText : Expr → String
  | .literal value _ => Number.text value
  | .variable q => q.name
  | .sum terms => " + ".intercalate (plainTexts terms)
  | .product factors => " * ".intercalate (plainTexts factors)
  | .difference left right => left.plainText ++ " - " ++ right.plainText
  | .quotient left right => left.plainText ++ " / " ++ right.plainText
  | .sqrt operand => "sqrt(" ++ operand.plainText ++ ")"
  | .power base exponent => base.plainText ++ "^" ++ exponent.toInt.repr
  | .group inner => "(" ++ inner.plainText ++ ")"
  | .call function argument => function.name ++ "(" ++ argument.plainText ++ ")"

/-- The texts of the operands of a formula. -/
def plainTexts : List Expr → List String
  | [] => []
  | e :: rest => e.plainText :: plainTexts rest

end

/-- The text of a formula: the rendered tree, printed as it stands. -/
def text (e : Expr) : String := e.render.plainText

end Expr

end Stepwise
