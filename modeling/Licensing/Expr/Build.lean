import Licensing.Expr.Render

/-!
Building expressions. `Expr.join?` refuses operands that do not fit their operator; the combinators
`conj`, `disj` and `grant` also take entries of the catalog and turn them into leaves.
-/

namespace Licensing

/-- The leaf of a catalog entry. A deprecated license says "or later" by a `+` at the end, which is
taken off; a current one says it by the `-or-later` of its identifier, which is kept. -/
def LicenseEntry.leaf (e : LicenseEntry) : License :=
  if e.deprecated then
    match Text.dropSuffix? e.id plusSuffix with
    | some id => .listed id true true
    | none => .listed e.id false true
  else .listed e.id (Text.hasSuffix e.id orLaterSuffix) false

def ExceptionEntry.leaf (e : ExceptionEntry) : LicenseException where
  id := e.id
  deprecated := e.deprecated

/-- A catalog entry as a value that is no expression. -/
def LicenseEntry.foreign (e : LicenseEntry) : Foreign where
  kind := "SpdxLicense"
  text := e.display
  quoted := e.display

def ExceptionEntry.foreign (e : ExceptionEntry) : Foreign where
  kind := "SpdxLicenseException"
  text := e.display
  quoted := e.display

namespace Expr

/-- The check of an operand of `AND` or `OR`: it is no exception. -/
def checkOperand (op : Operator) : Expr → Except Fault Unit
  | exception x => .error (.looseException x.id op)
  | _ => .ok ()

/-- The check of what is granted an exception: neither an exception nor something that has one. -/
def checkGranted (left : Expr) : Except Fault Unit :=
  match left with
  | exception x => .error (.exceptionGrantedException x.id)
  | _ => if left.hasAttachment then .error .nestedAttachment else .ok ()

/-- The check of what is attached: an exception. -/
def checkAttached : Expr → Except Fault Unit
  | exception _ => .ok ()
  | other => .error (.notAnException other.kindName)

/-- Two expressions joined by an operator, if they fit it. The left one is checked first. -/
def join? (left : Expr) (op : Operator) (right : Expr) : Except Fault Expr := do
  match op with
  | .attach =>
    checkGranted left
    checkAttached right
  | op =>
    checkOperand op left
    checkOperand op right
  return join left op right

/-- Every joined pair in the tree fits its operator. -/
def Buildable : Expr → Prop
  | leaf _ => True
  | join left op right =>
    left.Buildable ∧ right.Buildable ∧ left.join? op right = .ok (join left op right)

end Expr

/-- What the combinators accept: an entry of the catalog, or an expression. -/
inductive Operand where
  | license (e : LicenseEntry)
  | exception (e : ExceptionEntry)
  | expr (e : Expr)
  deriving DecidableEq, Repr

namespace Operand

/-- The text of an operand, if it can be made. -/
def shown : Operand → Except Fault String
  | license e => .ok e.display
  | exception e => .ok e.display
  | expr e => e.shown

def kindName : Operand → String
  | license e => e.foreign.kind
  | exception e => e.foreign.kind
  | expr e => e.kindName

/-- The expression to be joined by `AND` or `OR`. -/
def toExpr : Operand → Except Fault Expr
  | license e => .ok (.license e.leaf)
  | exception e => .error (.notAnOperand e.foreign.kind)
  | expr (.foreign v) => .error (.notAnOperand v.kind)
  | expr e => .ok e

/-- The license to be granted an exception. -/
def toLicense : Operand → Except Fault License
  | license e => .ok e.leaf
  | expr (.license l) => .ok l
  | other => other.shown.bind fun text => .error (.notASingleLicense text)

/-- The exception to be attached. -/
def toException : Operand → Except Fault LicenseException
  | exception e => .ok e.leaf
  | expr (.exception x) => .ok x
  | other => .error (.notAttachable other.kindName)

end Operand

namespace Expr

def conj (left right : Operand) : Except Fault Expr := do
  join? (← left.toExpr) .and (← right.toExpr)

def disj (left right : Operand) : Except Fault Expr := do
  join? (← left.toExpr) .or (← right.toExpr)

/-- A single license with an exception attached. -/
def grant (license exception : Operand) : Except Fault Expr := do
  join? (.license (← license.toLicense)) .attach (.exception (← exception.toException))

end Expr

end Licensing
