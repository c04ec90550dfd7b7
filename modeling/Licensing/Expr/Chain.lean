import Licensing.Expr.Basic

/-!
Chains. A written expression does not show how a chain of one operator is nested; `leftNested` is
the tree among those with the same writing whose chains all lean to the left.
-/

namespace Licensing.Expr

/-- An expression joined by an operator in front of the chain of that operator at the top of
another one. -/
def joinFront (op : Operator) (left : Expr) : Expr → Expr
  | leaf l => join left op (leaf l)
  | join first middle last =>
    if middle = op then join (joinFront op left first) op last
    else join left op (join first middle last)

/-- The expression with every chain of `AND` and every chain of `OR` nested to the left. -/
def leftNested : Expr → Expr
  | leaf l => leaf l
  | join left .attach right => join left.leftNested .attach right.leftNested
  | join left op right => joinFront op left.leftNested right.leftNested

end Licensing.Expr
