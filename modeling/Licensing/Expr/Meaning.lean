import Licensing.NormalForm.Clause

/-!
What an expression says, read off the tree and without a normal form: which expressions say
something at all, the terms in them, and whether a list of allowed licenses meets them. An exception
counts for every license below the `WITH` that attaches it.
-/

namespace Licensing.Expr

/-- The expression is built from licenses, and every exception in it is attached to an expression
that has none. -/
def IsLicense : Expr → Prop
  | license _ => True
  | exception _ => False
  | foreign _ => False
  | join left .attach (exception _) => left.IsLicense ∧ left.hasAttachment = false
  | join _ .attach _ => False
  | join left _ right => left.IsLicense ∧ right.IsLicense

/-- The terms from left to right, when an exception is attached to the whole expression or none
is. -/
def terms (attached : Option LicenseException) : Expr → List Term
  | license l => [⟨l, attached⟩]
  | leaf _ => []
  | join left .attach (exception x) => left.terms (some x)
  | join _ .attach _ => []
  | join left _ right => left.terms attached ++ right.terms attached

/-- The number of alternatives that the shape of the tree leaves, none of them counted as the same
as another. -/
def alternatives : Expr → Nat
  | leaf _ => 1
  | join left .or right => left.alternatives + right.alternatives
  | join left .and right => left.alternatives * right.alternatives
  | join left .attach _ => left.alternatives

/-- Whether the allowed texts meet the expression, when an exception is attached to the whole of it
or none is. -/
def permits (allowed : List String) (attached : Option LicenseException) : Expr → Bool
  | license l =>
    match attached with
    | none => allowed.contains l.text
    | some x => allowed.contains (l.text ++ " WITH " ++ x.id)
  | leaf _ => false
  | join left .attach (exception x) => left.permits allowed (some x)
  | join _ .attach _ => false
  | join left .or right => left.permits allowed attached || right.permits allowed attached
  | join left .and right => left.permits allowed attached && right.permits allowed attached

end Licensing.Expr
